import Mathlib.Data.List.Forall2
import Mathlib.Data.List.Perm.Basic
import AnchoredDid.Proofs.Json.Canonical

/-!
# Values that hashes do not tell apart

Two values are alike if they have the same structure and the same strings, and numbers that are
written alike; the integer 1 and the double 1.0 are. For values in order this is equality of their
canonical texts (`Json.alike_iff_canonicalText_eq`). Alike values answer look-ups alike.
-/

namespace AnchoredDid

namespace Members

variable {α β : Type} {R : α → β → Prop} {ms : Members α} {ns : Members β}

theorem find?_rel (h : List.Forall₂ (Named R) ms ns) (name : String) :
    Option.Rel R (find? name ms) (find? name ns) := by
  induction h with
  | nil => exact .none
  | cons hfirst _ ih =>
      obtain ⟨n, hvalue⟩ := hfirst
      by_cases hn : name = n
      · simpa [find?, hn] using hvalue
      · simpa [find?, hn] using ih

/-- Members in order are related one by one if what is found in them is. -/
theorem forall₂_of_find?_rel (hms : ms.Sorted) (hns : ns.Sorted)
    (h : ∀ name, Option.Rel R (find? name ms) (find? name ns)) : List.Forall₂ (Named R) ms ns := by
  induction ms generalizing ns with
  | nil =>
      cases ns with
      | nil => exact .nil
      | cons n ns =>
          have hfirst := h n.1
          simp [find?] at hfirst
  | cons m ms ih =>
      obtain ⟨name, x⟩ := m
      cases ns with
      | nil =>
          have hfirst := h name
          simp [find?] at hfirst
      | cons n ns =>
          obtain ⟨other, y⟩ := n
          have hsame : name = other := by
            rcases Std.lt_trichotomy name other with hlt | heq | hlt
            · have hfirst := h name
              rw [hns.find?_of_lt hlt] at hfirst
              simp [find?] at hfirst
            · exact heq
            · have hfirst := h other
              rw [hms.find?_of_lt hlt] at hfirst
              simp [find?] at hfirst
          subst hsame
          have hvalue := h name
          simp only [find?, if_true, Option.rel_some_some] at hvalue
          refine .cons (.intro name hvalue)
            (ih (List.pairwise_cons.1 hms).2 (List.pairwise_cons.1 hns).2 fun later => ?_)
          by_cases hlater : later = name
          · have hmsRest : find? name ms = none := hms.find?_rest
            have hnsRest : find? name ns = none := hns.find?_rest
            rw [hlater, hmsRest, hnsRest]
            exact .none
          · have hrel := h later
            rw [find?, find?, if_neg hlater, if_neg hlater] at hrel
            exact hrel

theorem insert_rel (h : List.Forall₂ (Named R) ms ns) (name : String) {x : α} {y : β}
    (hxy : R x y) : List.Forall₂ (Named R) (insert name x ms) (insert name y ns) := by
  induction h with
  | nil => exact .cons (.intro name hxy) .nil
  | cons hfirst hrest ih =>
      obtain ⟨n, hvalue⟩ := hfirst
      unfold insert
      split
      · exact .cons (.intro name hxy) hrest
      · split
        · exact .cons (.intro name hxy) (.cons (.intro n hvalue) hrest)
        · exact .cons (.intro n hvalue) ih

theorem erase_rel (h : List.Forall₂ (Named R) ms ns) (name : String) :
    List.Forall₂ (Named R) (erase name ms) (erase name ns) := by
  induction h with
  | nil => exact .nil
  | cons hfirst hrest ih =>
      obtain ⟨n, hvalue⟩ := hfirst
      unfold erase
      split
      · exact hrest
      · exact .cons (.intro n hvalue) ih

end Members

namespace Json

/-- The same structure and strings, with numbers that are written alike. -/
inductive Alike : Json → Json → Prop where
  | null : Alike .null .null
  | bool (b : Bool) : Alike (.bool b) (.bool b)
  | string (s : String) : Alike (.string s) (.string s)
  | number {x y : Json} (left : x.isNumber = true) (right : y.isNumber = true)
      (text : x.canonicalText = y.canonicalText) : Alike x y
  | array {xs ys : List Json} (each : List.Forall₂ Alike xs ys) : Alike (.array xs) (.array ys)
  | object {ms ns : List (String × Json)} (each : List.Forall₂ (Members.Named Alike) ms ns) :
      Alike (.object ms) (.object ns)

@[refl] theorem Alike.refl (x : Json) : Alike x x := by
  induction x using induction with
  | null => exact .null
  | bool b => exact .bool b
  | int n => exact .number rfl rfl rfl
  | double x => exact .number rfl rfl rfl
  | string s => exact .string s
  | array xs ih => exact .array (List.forall₂_same.2 ih)
  | object ms ih => exact .object (List.forall₂_same.2 fun m hm => .intro m.1 (ih m hm))

/-! ## The same canonical text -/

theorem Alike.canonicalText_eq {x y : Json} (h : Alike x y) :
    x.canonicalText = y.canonicalText := by
  induction x using induction generalizing y with
  | array xs ih =>
      cases h with
      | number left _ _ => cases left
      | @array _ ys each =>
          have hitems : xs.map canonicalText = ys.map canonicalText := by
            induction each with
            | nil => rfl
            | cons hfirst hrest ihrest =>
                obtain ⟨hx, hxs⟩ := List.forall_mem_cons.1 ih
                rw [List.map_cons, List.map_cons, hx hfirst, ihrest hxs]
          rw [canonicalText_array, canonicalText_array, hitems]
  | object ms ih =>
      cases h with
      | number left _ _ => cases left
      | @object _ ns each =>
          have hmembers : canonicalMembers ms = canonicalMembers ns := by
            induction each with
            | nil => rfl
            | cons hfirst hrest ihrest =>
                obtain ⟨name, hvalue⟩ := hfirst
                obtain ⟨hx, hxs⟩ := List.forall_mem_cons.1 ih
                rw [canonicalMembers, canonicalMembers, hx hvalue, ihrest hxs]
          rw [canonicalText_object, canonicalText_object, hmembers]
  | _ =>
      cases h with
      | number _ _ text => exact text
      | _ => rfl

/-- Lists with equal images are related element by element. -/
theorem forall₂_of_map_eq {α β : Type} {f : α → β} {R : α → α → Prop} {xs ys : List α}
    (each : ∀ x ∈ xs, ∀ y ∈ ys, f x = f y → R x y) (h : xs.map f = ys.map f) :
    List.Forall₂ R xs ys := by
  induction xs generalizing ys with
  | nil =>
      obtain rfl := List.map_eq_nil_iff.1 h.symm
      exact .nil
  | cons x xs ih =>
      cases ys with
      | nil => cases h
      | cons y ys =>
          obtain ⟨hfirst, hrest⟩ := List.cons.inj h
          refine .cons (each x List.mem_cons_self y List.mem_cons_self hfirst) (ih ?_ hrest)
          exact fun x hx y hy => each x (List.mem_cons_of_mem _ hx) y (List.mem_cons_of_mem _ hy)

theorem sorted_map_texted {ms : List (String × Json)} (h : Members.Sorted ms) :
    Members.Sorted (ms.map texted) :=
  List.pairwise_map.2 h

/-- Objects in order with the same canonical text have the same names, with values of the same
texts. Their written members are in the order of the written names, so the order of the names is
what makes the objects themselves agree. -/
theorem map_texted_eq {ms ns : List (String × Json)} (hms : Members.Sorted ms)
    (hns : Members.Sorted ns)
    (h : canonicalText (.object ms) = canonicalText (.object ns)) :
    ms.map texted = ns.map texted := by
  refine List.Perm.eq_of_pairwise ?_ (sorted_map_texted hms) (sorted_map_texted hns)
    (map_texted_perm h)
  exact fun p q _ _ hpq hqp => absurd (String.lt_trans hpq hqp) (String.lt_irrefl _)

theorem alike_of_canonicalText_eq {x y : Json} (hx : x.Ordered) (hy : y.Ordered)
    (h : x.canonicalText = y.canonicalText) : Alike x y := by
  induction x using induction generalizing y with
  | null =>
      have hkind := kind_eq_of_canonicalText_eq h
      cases y with
      | null => exact .null
      | _ => cases hkind
  | bool b =>
      have hkind := kind_eq_of_canonicalText_eq h
      cases y with
      | bool b' =>
          cases hkind
          exact .bool b
      | _ => cases hkind
  | int n => exact .number rfl (isNumber_iff_kind.2 (kind_eq_of_canonicalText_eq h).symm) h
  | double x => exact .number rfl (isNumber_iff_kind.2 (kind_eq_of_canonicalText_eq h).symm) h
  | string s =>
      have hkind := kind_eq_of_canonicalText_eq h
      cases y with
      | string t =>
          obtain ⟨rfl, -⟩ := quote_append_inj (congrArg (· ++ []) h)
          exact .string s
      | _ => cases hkind
  | array xs ih =>
      have hkind := kind_eq_of_canonicalText_eq h
      cases y with
      | array ys =>
          have hitems := map_canonicalText_eq h
          exact .array (forall₂_of_map_eq (fun x hmem y hmem' htext =>
            ih x hmem (hx.of_mem_array x hmem) (hy.of_mem_array y hmem') htext) hitems)
      | _ => cases hkind
  | object ms ih =>
      have hkind := kind_eq_of_canonicalText_eq h
      cases y with
      | object ns =>
          have hnamed : ∀ m ∈ ms, ∀ n ∈ ns, texted m = texted n → Members.Named Alike m n := by
            rintro ⟨name, x⟩ hm ⟨other, y⟩ hn htexted
            obtain ⟨rfl, htext⟩ := Prod.mk.inj htexted
            exact .intro _ (ih _ hm (hx.of_mem_object _ hm) (hy.of_mem_object _ hn) htext)
          exact .object (forall₂_of_map_eq hnamed (map_texted_eq hx.sorted hy.sorted h))
      | _ => cases hkind

/-- Values in order are alike exactly if they are hashed from the same text. -/
theorem alike_iff_canonicalText_eq {x y : Json} (hx : x.Ordered) (hy : y.Ordered) :
    Alike x y ↔ x.canonicalText = y.canonicalText :=
  ⟨Alike.canonicalText_eq, alike_of_canonicalText_eq hx hy⟩

/-! ## Looking into alike values -/

section Numbers

variable {x : Json} (h : x.isNumber = true)

include h

theorem string?_of_isNumber : x.string? = none :=
  isNumber_cases h (fun _ => rfl) fun _ => rfl

theorem bool?_of_isNumber : x.bool? = none :=
  isNumber_cases h (fun _ => rfl) fun _ => rfl

theorem array?_of_isNumber : x.array? = none :=
  isNumber_cases h (fun _ => rfl) fun _ => rfl

theorem object?_of_isNumber : x.object? = none :=
  isNumber_cases h (fun _ => rfl) fun _ => rfl

theorem member?_of_isNumber (name : String) : x.member? name = none :=
  isNumber_cases h (fun _ => rfl) fun _ => rfl

end Numbers

namespace Alike

variable {x y : Json} (h : Alike x y)

include h

theorem hash_eq : x.hash = y.hash := by
  rw [hash, hash, canonical, canonical, h.canonicalText_eq]

theorem string?_eq : x.string? = y.string? := by
  cases h with
  | number left right _ => rw [string?_of_isNumber left, string?_of_isNumber right]
  | _ => rfl

theorem bool?_eq : x.bool? = y.bool? := by
  cases h with
  | number left right _ => rw [bool?_of_isNumber left, bool?_of_isNumber right]
  | _ => rfl

theorem isObject_eq : x.isObject = y.isObject := by
  cases h with
  | number left right _ =>
      rw [isObject, isObject, object?_of_isNumber left, object?_of_isNumber right]
  | _ => rfl

theorem array?_rel : Option.Rel (List.Forall₂ Alike) x.array? y.array? := by
  cases h with
  | number left right _ =>
      rw [array?_of_isNumber left, array?_of_isNumber right]
      exact .none
  | array each => exact .some each
  | _ => exact .none

theorem member?_rel (name : String) : Option.Rel Alike (x.member? name) (y.member? name) := by
  cases h with
  | number left right _ =>
      rw [member?_of_isNumber left, member?_of_isNumber right]
      exact .none
  | object each => exact Members.find?_rel each name
  | _ => exact .none

theorem elements_rel (name : String) :
    List.Forall₂ Alike (x.elements name) (y.elements name) := by
  have hmember := h.member?_rel name
  rw [elements, elements]
  generalize x.member? name = value, y.member? name = value' at hmember ⊢
  cases hmember with
  | none => exact .nil
  | @some v v' hvalue =>
      have harray := hvalue.array?_rel
      rw [Option.bind_some, Option.bind_some]
      generalize v.array? = items, v'.array? = items' at harray ⊢
      cases harray with
      | none => exact .nil
      | some each => exact each

end Alike

end Json

end AnchoredDid
