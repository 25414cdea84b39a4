import AnchoredDid.Proofs.Json.Equal
import AnchoredDid.Proofs.Patch.Pointer
import Mathlib.Data.List.Induction

/-!
# Differences lead where they should

The difference of two values in order, applied to the first, leads to a value that equals the second
(`Patch.diff_apply`). It works in place: what it does at a pointer depends only on what stands
there, so members and elements are treated one after the other. Whatever the values are, it only
adds, removes and replaces (`Patch.between_edits`).
-/

namespace AnchoredDid

open Pointer

namespace Operation

variable {tokens : List String} {context : Json → Json} {path name : String}
  {members : Members Json} {items : List Json} {value old : Json}

theorem apply_replace_at (place : Place tokens context) (hpath : Pointer.tokens path = .ok tokens)
    (old new : Json) : (replace path new).apply (context old) = .ok (context new) := by
  rw [apply, replaceAt, hpath]
  exact place path (fun _ => .ok new) old

/-- An addition below a place adds to the container there. -/
theorem apply_add_at (place : Place tokens context) {token : String}
    (hpath : Pointer.tokens path = .ok (tokens ++ [token])) {container changed : Json}
    (h : insertChild path token value container = .ok changed) :
    (add path value).apply (context container) = .ok (context changed) := by
  have hne : path ≠ "" := by
    rintro rfl
    have hroot : Pointer.tokens "" = .ok [] := rfl
    rw [hroot] at hpath
    exact absurd (Except.ok.inj hpath).symm
      (List.append_ne_nil_of_right_ne_nil _ (List.cons_ne_nil _ _))
  rw [apply, addAt, if_neg hne, place.editParent hpath, h]
  rfl

/-- A removal below a place removes from the container there. -/
theorem apply_remove_at (place : Place tokens context) {token : String}
    (hpath : Pointer.tokens path = .ok (tokens ++ [token])) {container changed : Json}
    (h : eraseChild path token container = .ok changed) :
    (remove path).apply (context container) = .ok (context changed) := by
  rw [apply, removeAt, place.editParent hpath, h]
  rfl

theorem apply_add_member (place : Place tokens context) (hpath : Pointer.tokens path = .ok tokens)
    (name : String) (value : Json) (members : Members Json) :
    (add (extend path name) value).apply (context (.object members)) =
      .ok (context (.object (Members.insert name value members))) :=
  apply_add_at place (tokens_extend hpath name) rfl

theorem apply_remove_member (place : Place tokens context)
    (hpath : Pointer.tokens path = .ok tokens) (h : Members.find? name members = some old) :
    (remove (extend path name)).apply (context (.object members)) =
      .ok (context (.object (Members.erase name members))) :=
  apply_remove_at place (tokens_extend hpath name) (by rw [eraseChild, h])

theorem apply_add_item (place : Place tokens context) (hpath : Pointer.tokens path = .ok tokens)
    (items : List Json) (value : Json) :
    (add (Patch.elementPath path items.length) value).apply (context (.array items)) =
      .ok (context (.array (items ++ [value]))) := by
  refine apply_add_at place (tokens_elementPath hpath _) ?_
  rw [insertChild]
  split
  · rfl
  · rw [index_toDigits _ (Nat.lt_succ_self _)]
    simp [bind, Except.bind]

theorem apply_remove_item (place : Place tokens context) (hpath : Pointer.tokens path = .ok tokens)
    (items : List Json) (value : Json) :
    (remove (Patch.elementPath path items.length)).apply (context (.array (items ++ [value]))) =
      .ok (context (.array items)) := by
  refine apply_remove_at place (tokens_elementPath hpath _) ?_
  rw [eraseChild, index_toDigits _ (by simp)]
  simp [bind, Except.bind, List.eraseIdx_append_of_length_le]

end Operation

/-- An operation that puts a value somewhere or takes one away, and does nothing else. -/
inductive Operation.Edits : Operation → Prop
  | add (path : String) (value : Json) : Edits (.add path value)
  | remove (path : String) : Edits (.remove path)
  | replace (path : String) (value : Json) : Edits (.replace path value)

namespace Patch

variable {tokens : List String} {context : Json → Json} {path : String}

/-- From whatever stands at a place the difference to the target leads to an equal of the target. -/
def Reaches (target : Json) : Prop :=
  ∀ (source : Json), source.Ordered →
    ∀ (tokens : List String) (context : Json → Json) (path : String),
      Place tokens context → Pointer.tokens path = .ok tokens →
        ∃ v, (between path source target).apply (context source) = .ok (context v) ∧
          v.equal target = true

theorem replace_reaches (place : Place tokens context) (hpath : Pointer.tokens path = .ok tokens)
    (source target : Json) :
    ∃ v, Patch.apply [.replace path target] (context source) = .ok (context v) ∧
      v.equal target = true :=
  ⟨target, by rw [apply_singleton, Operation.apply_replace_at place hpath], target.equal_self⟩

/-! ## Members -/

/-- The removals leave the members that the target has as well. -/
theorem removals_apply (place : Place tokens context) (hpath : Pointer.tokens path = .ok tokens)
    (target : Members Json) {kept rest : Members Json} (sorted : Members.Sorted (kept ++ rest)) :
    (removals path rest target).apply (context (.object (kept ++ rest))) =
      .ok (context (.object
        (kept ++ rest.filter fun m => (Members.find? m.1 target).isSome))) := by
  induction rest generalizing kept with
  | nil => rfl
  | cons m rest ih =>
      obtain ⟨name, value⟩ := m
      have hbefore : ∀ m ∈ kept, m.1 ≠ name := fun m hm heq =>
        String.lt_irrefl _ (heq ▸ (List.pairwise_append.1 sorted).2.2 m hm _ List.mem_cons_self)
      cases hfind : Members.find? name target with
      | some found =>
          have hkept :
              removals path ((name, value) :: rest) target = removals path rest target := by
            simp [removals, hfind]
          have hsorted : Members.Sorted ((kept ++ [(name, value)]) ++ rest) := by
            rwa [List.append_assoc]
          have hrest := ih hsorted
          rw [List.append_assoc, List.append_assoc] at hrest
          rw [hkept, List.filter_cons_of_pos (by simp [hfind])]
          exact hrest
      | none =>
          have hremoved : removals path ((name, value) :: rest) target =
              .remove (extend path name) :: removals path rest target := by
            simp [removals, hfind]
          have hsorted : Members.Sorted (kept ++ rest) :=
            sorted.sublist (List.Sublist.append_left (List.sublist_cons_self _ _) kept)
          rw [hremoved, apply_cons, Operation.apply_remove_member place hpath
            (Members.find?_middle hbefore), Members.erase_middle hbefore,
            List.filter_cons_of_neg (by simp [hfind])]
          exact ih hsorted

/-- One member of the target, whether the source has it or not. -/
theorem member_leads (place : Place tokens context) (hpath : Pointer.tokens path = .ok tokens)
    {source current : Members Json} (ordered : ∀ m ∈ source, m.2.Ordered)
    (sorted : current.Sorted) {name : String} {value : Json} (reaches : Reaches value)
    (same : Members.find? name current = Members.find? name source) :
    ∃ v, (match Members.find? name source with
        | some old => between (extend path name) old value
        | none => [.add (extend path name) value]).apply (context (.object current)) =
          .ok (context (.object (Members.insert name v current))) ∧ v.equal value = true := by
  cases hfind : Members.find? name source with
  | none =>
      refine ⟨value, ?_, value.equal_self⟩
      rw [apply_singleton]
      exact Operation.apply_add_member place hpath name value current
  | some old =>
      obtain ⟨v, happly, hequal⟩ := reaches old (ordered _ (Members.mem_of_find? hfind)) _ _ _
        (place.append (Place.member name current)) (tokens_extend hpath name)
      rw [Members.insert_eq_self sorted (same.trans hfind)] at happly
      exact ⟨v, happly, hequal⟩

theorem betweenMembers_leads (place : Place tokens context)
    (hpath : Pointer.tokens path = .ok tokens) {source : Members Json}
    (ordered : ∀ m ∈ source, m.2.Ordered) {target : List (String × Json)}
    (sortedTarget : Members.Sorted target) (reaches : ∀ m ∈ target, Reaches m.2)
    {current : Members Json} (sorted : current.Sorted)
    (same : ∀ m ∈ target, Members.find? m.1 current = Members.find? m.1 source) :
    ∃ final : Members Json, (betweenMembers path source target).apply (context (.object current)) =
        .ok (context (.object final)) ∧ final.Sorted ∧
      (∀ m ∈ target, ∃ v, Members.find? m.1 final = some v ∧ v.equal m.2 = true) ∧
      ∀ name, (∀ m ∈ target, m.1 ≠ name) →
        Members.find? name final = Members.find? name current := by
  induction target generalizing current with
  | nil => exact ⟨current, rfl, sorted, fun _ hm => (nomatch hm), fun _ _ => rfl⟩
  | cons m rest ih =>
      obtain ⟨name, value⟩ := m
      obtain ⟨hless, hrest⟩ := List.pairwise_cons.1 sortedTarget
      obtain ⟨(hvalue : Reaches value), hlater⟩ := List.forall_mem_cons.1 reaches
      obtain ⟨(hsame : Members.find? name current = _), hsameLater⟩ := List.forall_mem_cons.1 same
      have hother : ∀ m ∈ rest, m.1 ≠ name := fun m hm heq =>
        String.lt_irrefl _ (heq ▸ hless m hm)
      obtain ⟨v, hfirst, hequal⟩ := member_leads place hpath ordered sorted hvalue hsame
      obtain ⟨final, happly, hsorted, hfound, hkept⟩ := ih hrest hlater
        (Members.sorted_insert sorted name v) fun m hm => by
          rw [Members.find?_insert_of_ne (hother m hm), hsameLater m hm]
      refine ⟨final, ?_, hsorted, List.forall_mem_cons.2 ⟨⟨v, ?_, hequal⟩, hfound⟩, ?_⟩
      · rw [betweenMembers]
        exact (apply_append_of_ok hfirst).trans happly
      · rw [hkept name hother, Members.find?_insert_self]
      · intro other hnames
        obtain ⟨hname, hnames⟩ := List.forall_mem_cons.1 hnames
        rw [hkept other hnames, Members.find?_insert_of_ne hname.symm]

/-- Objects are led member by member: what the target lacks goes first. -/
theorem object_leads (place : Place tokens context) (hpath : Pointer.tokens path = .ok tokens)
    {source target : Members Json} (ordered : Json.Ordered (.object source))
    (sorted : target.Sorted) (reaches : ∀ m ∈ target, Reaches m.2) :
    ∃ v, (removals path source target ++ betweenMembers path source target).apply
        (context (.object source)) = .ok (context v) ∧ v.equal (.object target) = true := by
  have hkept : Members.Sorted
      (source.filter fun m => (Members.find? m.1 target).isSome) := ordered.sorted.filter _
  have hfind : ∀ name, Members.find? name
      (source.filter fun m => (Members.find? m.1 target).isSome) =
        if (Members.find? name target).isSome then Members.find? name source
        else none := fun name =>
    Members.find?_filter (fun n => (Members.find? n target).isSome) source
  obtain ⟨final, happly, hsorted, hfound, hothers⟩ :=
    betweenMembers_leads place hpath ordered.of_mem_object sorted reaches hkept fun m hm => by
      rw [hfind, if_pos (by rw [Members.find?_of_mem sorted hm, Option.isSome_some])]
  have hremovals := removals_apply place hpath target
    (show Members.Sorted ([] ++ source) from ordered.sorted)
  refine ⟨.object final, ?_, Json.equalMembers_iff_forall₂.2 ?_⟩
  · rw [List.nil_append, List.nil_append] at hremovals
    rw [apply_append_of_ok hremovals, happly]
  · refine Members.forall₂_of_find?_rel hsorted sorted fun name => ?_
    cases htarget : Members.find? name target with
    | some value =>
        obtain ⟨v, hv, hequal⟩ := hfound _ (Members.mem_of_find? htarget)
        rw [hv]
        exact .some hequal
    | none =>
        rw [hothers name fun m hm => Members.find?_eq_none_iff.1 htarget m hm, hfind, htarget]
        exact .none

/-! ## Elements -/

theorem removeItems_apply (place : Place tokens context) (hpath : Pointer.tokens path = .ok tokens)
    (kept items : List Json) :
    (removeItems path kept.length items).apply (context (.array (kept ++ items))) =
      .ok (context (.array kept)) := by
  induction items using List.reverseRecOn with
  | nil => simp [removeItems]
  | append_singleton items last ih =>
      have hlast : removeItems path kept.length (items ++ [last]) =
          .remove (elementPath path (kept ++ items).length) ::
            removeItems path kept.length items := by
        simp [removeItems, List.range_succ]
      rw [hlast, ← List.append_assoc, apply_cons, Operation.apply_remove_item place hpath]
      exact ih

theorem addItems_apply (place : Place tokens context) (hpath : Pointer.tokens path = .ok tokens)
    (kept items : List Json) :
    (addItems path kept.length items).apply (context (.array kept)) =
      .ok (context (.array (kept ++ items))) := by
  induction items generalizing kept with
  | nil => rw [List.append_nil]; rfl
  | cons item rest ih =>
      have hrest := ih (kept ++ [item])
      rw [List.length_append, List.append_assoc] at hrest
      rw [addItems, apply_cons, Operation.apply_add_item place hpath]
      exact hrest

/-- Elements are led one by one; surplus ones are removed, missing ones are added. -/
theorem betweenItems_leads (place : Place tokens context)
    (hpath : Pointer.tokens path = .ok tokens) {target : List Json}
    (reaches : ∀ x ∈ target, Reaches x) {source : List Json} (ordered : ∀ x ∈ source, x.Ordered)
    (done : List Json) :
    ∃ items, (betweenItems path done.length source target).apply
        (context (.array (done ++ source))) = .ok (context (.array (done ++ items))) ∧
      List.Forall₂ (fun x y => Json.equal x y = true) items target := by
  induction target generalizing source done with
  | nil =>
      refine ⟨[], ?_, .nil⟩
      rw [betweenItems, List.append_nil]
      exact removeItems_apply place hpath done source
  | cons value rest ih =>
      obtain ⟨hvalue, hlater⟩ := List.forall_mem_cons.1 reaches
      cases source with
      | nil =>
          refine ⟨value :: rest, ?_, List.forall₂_same.2 fun x _ => x.equal_self⟩
          rw [betweenItems, List.append_nil]
          exact addItems_apply place hpath done (value :: rest)
      | cons old more =>
          obtain ⟨hold, hmore⟩ := List.forall_mem_cons.1 ordered
          obtain ⟨v, hfirst, hequal⟩ := hvalue old hold _ _ _
            (place.append (Place.element done more)) (tokens_elementPath hpath done.length)
          obtain ⟨items, hrest, hequals⟩ := ih hlater hmore (done ++ [v])
          rw [List.length_append, List.append_assoc, List.append_assoc] at hrest
          refine ⟨v :: items, ?_, .cons hequal hequals⟩
          rw [betweenItems, apply_append_of_ok hfirst]
          exact hrest

/-! ## Values -/

theorem reaches_of_ordered {target : Json} (h : target.Ordered) : Reaches target := by
  induction target using Json.induction with
  | array items ih =>
      intro source hsource tokens context path place hpath
      cases source with
      | array elements =>
          rw [between]
          split
          · next hequal => exact ⟨_, rfl, hequal⟩
          · obtain ⟨result, happly, hequals⟩ := betweenItems_leads place hpath
              (fun x hx => ih x hx (h.of_mem_array x hx)) hsource.of_mem_array []
            exact ⟨.array result, happly, Json.equalItems_iff_forall₂.2 hequals⟩
      | _ => exact replace_reaches place hpath _ _
  | object members ih =>
      intro source hsource tokens context path place hpath
      cases source with
      | object found =>
          rw [between]
          split
          · next hequal => exact ⟨_, rfl, hequal⟩
          · exact object_leads place hpath hsource h.sorted fun m hm =>
              ih m hm (h.of_mem_object m hm)
      | _ => exact replace_reaches place hpath _ _
  | _ =>
      intro source hsource tokens context path place hpath
      rw [between]
      · split
        · next hequal => exact ⟨source, rfl, hequal⟩
        · exact replace_reaches place hpath source _
      all_goals nofun

/-- The difference of two values in order leads from the first to an equal of the second. -/
theorem diff_apply {source target : Json} (hsource : source.Ordered) (htarget : target.Ordered) :
    ∃ v, (diff source target).apply source = .ok v ∧ v.equal target = true :=
  reaches_of_ordered htarget source hsource [] id "" Place.root rfl

/-! ## Kinds of operations -/

variable {operation : Operation}

theorem removals_edits {source target : Members Json}
    (h : operation ∈ removals path source target) : operation.Edits := by
  obtain ⟨m, -, rfl⟩ := List.mem_map.1 h
  exact .remove _

theorem removeItems_edits {i : Nat} {items : List Json} (h : operation ∈ removeItems path i items) :
    operation.Edits := by
  obtain ⟨k, -, rfl⟩ := List.mem_map.1 (List.mem_reverse.1 h)
  exact .remove _

theorem addItems_edits {i : Nat} {items : List Json} (h : operation ∈ addItems path i items) :
    operation.Edits := by
  induction items generalizing i with
  | nil => cases h
  | cons item rest ih =>
      rcases List.mem_cons.1 h with rfl | h
      · exact .add _ _
      · exact ih h

/-- To this target only edits lead, from whatever value and wherever it stands. -/
def ByEdits (target : Json) : Prop :=
  ∀ path source, ∀ operation ∈ between path source target, operation.Edits

theorem replace_edits {value : Json} (h : operation ∈ [Operation.replace path value]) :
    operation.Edits :=
  List.mem_singleton.1 h ▸ .replace _ _

theorem betweenMembers_edits {source : Members Json} {target : List (String × Json)}
    (byEdits : ∀ m ∈ target, ByEdits m.2) (h : operation ∈ betweenMembers path source target) :
    operation.Edits := by
  induction target with
  | nil => cases h
  | cons m rest ih =>
      obtain ⟨name, value⟩ := m
      obtain ⟨(hvalue : ByEdits value), hlater⟩ := List.forall_mem_cons.1 byEdits
      rw [betweenMembers] at h
      rcases List.mem_append.1 h with h | h
      · split at h
        · exact hvalue _ _ _ h
        · exact List.mem_singleton.1 h ▸ .add _ _
      · exact ih hlater h

theorem betweenItems_edits {i : Nat} {source target : List Json}
    (byEdits : ∀ x ∈ target, ByEdits x) (h : operation ∈ betweenItems path i source target) :
    operation.Edits := by
  induction target generalizing i source with
  | nil => exact removeItems_edits h
  | cons value rest ih =>
      obtain ⟨hvalue, hlater⟩ := List.forall_mem_cons.1 byEdits
      cases source with
      | nil => exact addItems_edits h
      | cons old more =>
          rw [betweenItems] at h
          rcases List.mem_append.1 h with h | h
          · exact hvalue _ _ _ h
          · exact ih hlater h

theorem between_edits (target : Json) : ByEdits target := by
  induction target using Json.induction with
  | array items ih =>
      intro path source operation h
      cases source with
      | array elements =>
          rw [between] at h
          split at h
          · cases h
          · exact betweenItems_edits ih h
      | _ => exact replace_edits h
  | object members ih =>
      intro path source operation h
      cases source with
      | object found =>
          rw [between] at h
          split at h
          · cases h
          · rcases List.mem_append.1 h with h | h
            · exact removals_edits h
            · exact betweenMembers_edits ih h
      | _ => exact replace_edits h
  | _ =>
      intro path source operation h
      rw [between] at h
      · split at h
        · cases h
        · exact replace_edits h
      all_goals nofun

/-- Whatever members and elements two values in order have, and however they are nested and named:
the difference applies to the first and leads to an equal of the second, by edits alone. -/
theorem diff_reaches {source target : Json} (hsource : source.Ordered) (htarget : target.Ordered) :
    (∃ v, (diff source target).apply source = .ok v ∧ v.equal target = true) ∧
      ∀ operation ∈ diff source target, operation.Edits :=
  ⟨diff_apply hsource htarget, between_edits target "" source⟩

/-- Names that a pointer has to escape, an element that moves up, and an array that grows. -/
theorem diff_reaches_sample :
    let source := Json.ofMembers [("", .array [.int 1, .int 2, .int 3]),
      ("a/b", Json.ofMembers [("~", .int 1)]), ("~1", .null)]
    let target := Json.ofMembers [("", .array [.int 2]),
      ("a/b", Json.ofMembers [("~", .array []), ("~0", .bool true)]), ("-", .array [.int 4])]
    source.Ordered ∧ target.Ordered ∧
      (∃ v, (diff source target).apply source = .ok v ∧ v.equal target = true) ∧
      ∀ operation ∈ diff source target, operation.Edits := by
  intro source target
  have hsource : source.Ordered := Json.ordered_ofMembers (by
    simp [Json.Ordered.null, Json.Ordered.int, Json.Ordered.array, Json.ordered_ofMembers])
  have htarget : target.Ordered := Json.ordered_ofMembers (by
    simp [Json.Ordered.bool, Json.Ordered.int, Json.Ordered.array, Json.ordered_ofMembers])
  exact ⟨hsource, htarget, diff_reaches hsource htarget⟩

end Patch

end AnchoredDid
