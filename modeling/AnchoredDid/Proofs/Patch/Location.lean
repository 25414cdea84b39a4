import AnchoredDid.Proofs.Json.Ordered
import AnchoredDid.Proofs.Patch.Pointer

/-!
# Locations

Tokens lead from a value to one in it, a member or an element at a time (`Pointer.Leads`); reading
at a pointer is coming to where its tokens lead (`Pointer.follow_eq_ok_iff`). Members have one name
each, and an element is named by its index in decimal digits and by nothing else
(`Pointer.index?_eq_some_iff`), so different tokens lead to different places.

A value in order around one of its locations is a `Pointer.Site`: what is read apart from the
location does not depend on what stands there.
-/

namespace AnchoredDid.Pointer

variable {path token : String} {tokens later : List String} {i bound : Nat} {x y z : Json}

/-! ## Texts -/

/-- The text is empty or starts with a slash. -/
def Rooted (path : String) : Prop :=
  path = "" ∨ ∃ rest, path.toList = '/' :: rest

theorem exists_tokens_iff : (∃ tokens, Pointer.tokens path = .ok tokens) ↔ Rooted path := by
  constructor
  · rintro ⟨tokens, h⟩
    rw [Pointer.tokens] at h
    split at h
    · next hnil => exact .inl (String.toList_eq_nil_iff.1 hnil)
    · next rest hrest => exact .inr ⟨rest, hrest⟩
    · cases h
  · rintro (rfl | ⟨rest, hrest⟩)
    · exact ⟨[], rfl⟩
    · rw [Pointer.tokens, hrest]
      exact ⟨_, rfl⟩

/-- All pointers but the empty one have a last token. -/
theorem exists_last (h : Pointer.tokens path = .ok tokens) (hpath : path ≠ "") :
    ∃ parents last, tokens = parents ++ [last] := by
  have hne : tokens ≠ [] := by
    rintro rfl
    rw [Pointer.tokens] at h
    split at h
    · next hnil => exact hpath (String.toList_eq_nil_iff.1 hnil)
    · next rest _ =>
      exact Text.splitAll_ne_nil '/' rest (List.map_eq_nil_iff.1 (Except.ok.inj h))
    · cases h
  exact ⟨tokens.dropLast, tokens.getLast hne, (List.dropLast_concat_getLast hne).symm⟩

/-! ## Indices -/

/-- The token of an element: its index in decimal digits. -/
def indexToken (i : Nat) : String := String.ofList (Nat.toDigits 10 i)

theorem index?_eq_some_iff : index? token = some i ↔ token = indexToken i := by
  refine ⟨fun h => ?_, fun h => h ▸ index?_toDigits i⟩
  rw [indexToken, ← String.ofList_toList (s := token)]
  refine congrArg String.ofList ?_
  rw [index?] at h
  split at h
  · cases h
  · next hzero =>
    cases h
    rw [hzero, Nat.toDigits_zero]
  · cases h
  · next hne hzero hfirst =>
    split at h
    · next hdigits =>
      -- a text of digits with no zero in front is how its value is written
      have hvalue : Nat.ofDigitChars 10 token.toList 0 = i := Option.some.inj h
      rw [← hvalue]
      refine (Digits.toDigits_ofDigitChars hne (List.all_eq_true.1 hdigits) fun hhead => ?_).symm
      obtain ⟨rest, hrest⟩ := List.head?_eq_some_iff.1 hhead
      exact hfirst rest hrest
    · cases h

theorem index_eq_ok_iff : index path token bound = .ok i ↔ token = indexToken i ∧ i < bound := by
  rw [index, ← index?_eq_some_iff]
  cases index? token with
  | none => simp
  | some j =>
      by_cases hj : j < bound
      · simp only [hj, if_true, Except.ok.injEq, Option.some.injEq]
        exact ⟨fun h => ⟨h, h ▸ hj⟩, And.left⟩
      · simp only [hj, if_false, Option.some.injEq, reduceCtorEq, false_iff]
        rintro ⟨rfl, hlt⟩
        exact hj hlt

/-! ## Where tokens lead -/

/-- A token leads from a container to a member or an element of it. -/
inductive Step : String → Json → Json → Prop
  | member {name : String} {members : Members Json} {value : Json}
      (found : Members.find? name members = some value) : Step name (.object members) value
  | element {i : Nat} {items : List Json} {value : Json} (found : items[i]? = some value) :
      Step (indexToken i) (.array items) value

/-- Tokens lead from a value to one in it. -/
inductive Leads : List String → Json → Json → Prop
  | here (x : Json) : Leads [] x x
  | into {token : String} {tokens : List String} {x y z : Json} (step : Step token x y)
      (rest : Leads tokens y z) : Leads (token :: tokens) x z

theorem child_eq_ok_iff : child path token x = .ok y ↔ Step token x y := by
  constructor
  · intro h
    cases x with
    | object members =>
        rw [child] at h
        split at h
        · next found => exact Except.ok.inj h ▸ .member found
        · cases h
    | array items =>
        obtain ⟨i, hi, h⟩ := bind_eq_ok_iff.1 h
        obtain ⟨rfl, -⟩ := index_eq_ok_iff.1 hi
        split at h
        · next found => exact Except.ok.inj h ▸ .element found
        · cases h
    | _ => cases h
  · rintro (found | found)
    · rw [child, found]
    · obtain ⟨hi, -⟩ := List.getElem?_eq_some_iff.1 found
      rw [child, index_eq_ok_iff.2 ⟨rfl, hi⟩]
      simp only [bind, Except.bind, found]

theorem follow_eq_ok_iff : follow path tokens x = .ok y ↔ Leads tokens x y := by
  induction tokens generalizing x with
  | nil =>
      refine ⟨fun h => Except.ok.inj h ▸ .here x, fun h => ?_⟩
      cases h
      rfl
  | cons token tokens ih =>
      constructor
      · intro h
        obtain ⟨z, hz, h⟩ := bind_eq_ok_iff.1 h
        exact .into (child_eq_ok_iff.1 hz) (ih.1 h)
      · intro h
        cases h with
        | into step rest => exact bind_eq_ok_iff.2 ⟨_, child_eq_ok_iff.2 step, ih.2 rest⟩

theorem leads_append : Leads (tokens ++ later) x z ↔ ∃ y, Leads tokens x y ∧ Leads later y z := by
  constructor
  · intro h
    induction tokens generalizing x with
    | nil => exact ⟨x, .here x, h⟩
    | cons token tokens ih =>
        cases h with
        | into step rest =>
            obtain ⟨y, hy, hlater⟩ := ih rest
            exact ⟨y, .into step hy, hlater⟩
  · rintro ⟨y, h, hlater⟩
    induction h with
    | here => exact hlater
    | into step _ ih => exact .into step (ih hlater)

theorem leads_singleton : Leads [token] x y ↔ Step token x y := by
  refine ⟨fun h => ?_, fun h => .into h (.here y)⟩
  cases h with
  | into step rest =>
      cases rest
      exact step

/-- An edit that succeeds has come to where the tokens lead. -/
theorem exists_leads_of_editAt {edit : Json → Except PatchError Json}
    (h : editAt path edit tokens x = .ok y) : ∃ z, Leads tokens x z := by
  induction tokens generalizing x y with
  | nil => exact ⟨x, .here x⟩
  | cons token tokens ih =>
      obtain ⟨next, hnext, h⟩ := bind_eq_ok_iff.1 h
      obtain ⟨edited, hedited, -⟩ := bind_eq_ok_iff.1 h
      obtain ⟨z, hz⟩ := ih hedited
      exact ⟨z, .into (child_eq_ok_iff.1 hnext) hz⟩

theorem Step.ordered (step : Step token x y) (ordered : x.Ordered) : y.Ordered := by
  cases step with
  | member found => exact ordered.of_mem_object _ (Members.mem_of_find? found)
  | element found => exact ordered.of_mem_array _ (List.mem_of_getElem? found)

theorem Leads.ordered (leads : Leads tokens x y) (ordered : x.Ordered) : y.Ordered := by
  induction leads with
  | here => exact ordered
  | into step _ ih => exact ih (step.ordered ordered)

/-! ## Sites -/

theorem Place.cons {outer inner : Json → Json} (h : Place [token] outer)
    (hinner : Place tokens inner) : Place (token :: tokens) fun value => outer (inner value) := by
  intro path edit value
  have happend := editAt_append path edit [token] tokens (outer (inner value))
  rw [List.singleton_append] at happend
  rw [happend, h, hinner]
  cases edit value <;> rfl

/-- A value around one of its locations, as a function of what stands there: an edit there changes
nothing else, and what is read elsewhere does not depend on it. -/
structure Site (tokens : List String) (context : Json → Json) : Prop where
  place : Place tokens context
  leads : ∀ value, Leads tokens (context value) value
  elsewhere : ∀ path other, ¬ tokens <+: other → ¬ other <+: tokens → ∀ value value',
    follow path other (context value) = follow path other (context value')

theorem child_array_congr {items items' : List Json} (hlength : items.length = items'.length)
    (h : ∀ i, token = indexToken i → items[i]? = items'[i]?) :
    child path token (.array items) = child path token (.array items') := by
  rw [child, child, hlength]
  cases hindex : index path token items'.length with
  | error e => rfl
  | ok i =>
      simp only [bind, Except.bind]
      rw [h i (index_eq_ok_iff.1 hindex).1]

/-- Around a member or an element, whatever is under another token does not depend on it. -/
theorem Step.exists_site (step : Step token x y) (ordered : x.Ordered) :
    ∃ context : Json → Json, context y = x ∧ Place [token] context ∧
      (∀ value, Step token (context value) value) ∧
      ∀ path other, other ≠ token → ∀ value value',
        child path other (context value) = child path other (context value') := by
  cases step with
  | @member name members value found =>
      refine ⟨fun value => .object (Members.insert token value members),
        congrArg Json.object (Members.insert_eq_self ordered.sorted found),
        .member token members,
        fun value => .member (Members.find?_insert_self token value members), ?_⟩
      intro path other hother value value'
      rw [child, child, Members.find?_insert_of_ne hother, Members.find?_insert_of_ne hother]
  | @element i items value found =>
      obtain ⟨hi, rfl⟩ := List.getElem?_eq_some_iff.1 found
      have hlength : (items.take i).length = i := List.length_take_of_le (Nat.le_of_lt hi)
      have hplace := Place.element (items.take i) (items.drop (i + 1))
      rw [hlength] at hplace
      refine ⟨fun value => .array (items.take i ++ value :: items.drop (i + 1)),
        congrArg Json.array ?_, hplace, fun value => .element ?_, ?_⟩
      · rw [List.getElem_cons_drop, List.take_append_drop]
      · simp [hlength]
      · intro path other hother value value'
        refine child_array_congr (by simp) fun j hj => ?_
        have hne : j ≠ i := fun h => hother (h ▸ hj)
        grind

/-- Around everything that tokens lead to. -/
theorem Leads.exists_site (leads : Leads tokens x y) (ordered : x.Ordered) :
    ∃ context : Json → Json, context y = x ∧ Site tokens context := by
  induction leads with
  | here x =>
      exact ⟨id, rfl, .root, fun value => .here value,
        fun _ _ hprefix => absurd List.nil_prefix hprefix⟩
  | @into token tokens x y z step rest ih =>
      obtain ⟨inner, hinner, site⟩ := ih (step.ordered ordered)
      obtain ⟨outer, houter, place, leads, elsewhere⟩ := step.exists_site ordered
      refine ⟨fun value => outer (inner value), (congrArg outer hinner).trans houter,
        place.cons site.place, fun value => .into (leads _) (site.leads value), ?_⟩
      intro path other hbelow habove value value'
      cases other with
      | nil => exact absurd List.nil_prefix habove
      | cons next other =>
          rw [follow, follow]
          by_cases hnext : next = token
          · subst hnext
            rw [child_eq_ok_iff.2 (leads _), child_eq_ok_iff.2 (leads _)]
            refine site.elsewhere path other (fun h => hbelow ?_) (fun h => habove ?_) value value'
            · exact (List.prefix_cons_inj next).2 h
            · exact (List.prefix_cons_inj next).2 h
          · rw [elsewhere path next hnext (inner value) (inner value')]

end AnchoredDid.Pointer
