import AnchoredDid.Proofs.Patch.Edit
import AnchoredDid.Proofs.Patch.Grammar

/-!
# Moves

A move takes a value out and adds it elsewhere, or back at the same place, where it makes no
difference (`Operation.relocate_self`). Two cases are told from the texts of its pointers before
anything is looked up. A place inside of what is moved is refused, even where the two steps would go
through because another element has moved up. A move onto the same text leaves the document as it
is, even where the two steps would find nothing to take out (`Operation.move_apply`).
-/

namespace AnchoredDid

namespace Pointer

variable {source path : String} {names : List String} {document value : Json}

/-- A text that names a place behind the root, and the value that is there. -/
def Names (source : String) (document value : Json) : Prop :=
  ∃ parents last, Pointer.tokens source = .ok (parents ++ [last]) ∧
    Leads (parents ++ [last]) document value

/-- A text that goes on behind another one. -/
def Below (source path : String) : Prop :=
  ∃ rest, path.toList = source.toList ++ '/' :: rest

theorem not_below_self : ¬ Below path path := by
  rintro ⟨rest, h⟩
  simp at h

theorem isSome_after?_iff :
    (Text.after? (source.toList ++ ['/']) path.toList).isSome ↔ Below source path := by
  rw [Option.isSome_iff_exists]
  refine exists_congr fun rest => ?_
  rw [Text.after?_eq_some_iff, List.append_assoc, List.singleton_append]

theorem exists_tokens_of_below (hnames : Pointer.tokens source = .ok names)
    (h : Below source path) :
    ∃ token more, Pointer.tokens path = .ok (names ++ token :: more) := by
  obtain ⟨rest, hrest⟩ := h
  obtain ⟨part, parts, hparts⟩ := List.exists_cons_of_ne_nil (Text.splitAll_ne_nil '/' rest)
  refine ⟨String.ofList (unescape part), parts.map fun p => String.ofList (unescape p), ?_⟩
  rw [Pointer.tokens] at hnames
  rw [Pointer.tokens, hrest]
  split at hnames
  · next hsource =>
    cases hnames
    simp [hsource, hparts]
  · next more hsource =>
    cases hnames
    simp [hsource, Text.splitAll_append_separator, hparts]
  · cases hnames

/-- Of two valid pointers, one goes on behind the other if its tokens do. -/
theorem below_iff (hsource : Valid source) (hpath : Valid path) :
    Below source path ↔ ∃ names token more, Pointer.tokens source = .ok names ∧
      Pointer.tokens path = .ok (names ++ token :: more) := by
  constructor
  · intro h
    obtain ⟨names, hnames⟩ := exists_tokens_iff.2 hsource.rooted
    obtain ⟨token, more, htokens⟩ := exists_tokens_of_below hnames h
    exact ⟨names, token, more, hnames, htokens⟩
  · rintro ⟨names, token, more, hnames, htokens⟩
    refine ⟨escape token.toList ++ more.flatMap fun name => '/' :: escape name.toList, ?_⟩
    rw [hpath.toList_eq htokens, hsource.toList_eq hnames, List.flatMap_append, List.flatMap_cons,
      List.cons_append]

theorem Names.ne_empty (h : Names source document value) : source ≠ "" := by
  rintro rfl
  obtain ⟨parents, last, htokens, -⟩ := h
  have hnil : parents ++ [last] = [] := (Except.ok.inj htokens).symm
  simp at hnil

theorem Names.valueAt (h : Names source document value) :
    Operation.valueAt source document = .ok value := by
  obtain ⟨parents, last, htokens, leads⟩ := h
  rw [Operation.valueAt, htokens]
  exact follow_eq_ok_iff.2 leads

theorem names_of_valueAt (h : Operation.valueAt source document = .ok value)
    (hsource : source ≠ "") : Names source document value := by
  obtain ⟨tokens, htokens, h⟩ := bind_eq_ok_iff.1 h
  obtain ⟨parents, last, rfl⟩ := exists_last htokens hsource
  exact ⟨parents, last, htokens, follow_eq_ok_iff.1 h⟩

end Pointer

open Pointer

namespace Operation

variable {source path last : String} {document container value after without : Json}

/-- A value taken out of a place and added at another one. -/
def relocate (source path : String) (document : Json) : Except PatchError Json := do
  let value ← valueAt source document
  let without ← removeAt source document
  addAt path value without

theorem ne_empty_of_removeAt (h : removeAt source document = .ok without) : source ≠ "" := by
  rintro rfl
  cases h

theorem relocate_eq_ok_iff :
    relocate source path document = .ok after ↔ ∃ value without, Names source document value ∧
      (remove source).apply document = .ok without ∧
      (add path value).apply without = .ok after := by
  constructor
  · intro h
    obtain ⟨value, hvalue, h⟩ := bind_eq_ok_iff.1 h
    obtain ⟨without, hwithout, h⟩ := bind_eq_ok_iff.1 h
    exact ⟨value, without, names_of_valueAt hvalue (ne_empty_of_removeAt hwithout), hwithout, h⟩
  · rintro ⟨value, without, names, hwithout, h⟩
    exact bind_eq_ok_iff.2 ⟨value, names.valueAt, bind_eq_ok_iff.2 ⟨without, hwithout, h⟩⟩

/-- What is taken out of a container and put back where it was leaves the container as it was. -/
theorem insertChild_eraseChild (ordered : container.Ordered) (step : Step last container value)
    (path : String) :
    ∃ rest, eraseChild path last container = .ok rest ∧
      insertChild path last value rest = .ok container := by
  cases step with
  | @member name members value found =>
      refine ⟨.object (Members.erase last members), by rw [eraseChild, found], ?_⟩
      exact congrArg (Except.ok ∘ Json.object) (Members.insert_erase ordered.sorted found)
  | @element i items value found =>
      obtain ⟨hi, rfl⟩ := List.getElem?_eq_some_iff.1 found
      have hlength : i < (items.eraseIdx i).length + 1 := by
        rw [List.length_eraseIdx_of_lt hi]
        omega
      have hend : indexToken i ≠ "-" := fun h => by
        have := index?_eq_some_iff.2 h.symm
        cases this
      refine ⟨.array (items.eraseIdx i), by rw [eraseChild, index_eq_ok_iff.2 ⟨rfl, hi⟩]; rfl, ?_⟩
      rw [insertChild, if_neg hend, index_eq_ok_iff.2 ⟨rfl, hlength⟩]
      have htake : (items.take i).length = i := List.length_take_of_le (Nat.le_of_lt hi)
      refine congrArg (Except.ok ∘ Json.array) ?_
      rw [List.eraseIdx_eq_take_drop_succ, List.take_left' htake, List.drop_left' htake,
        List.getElem_cons_drop, List.take_append_drop]

/-- A value added back where it was taken out makes no difference. -/
theorem relocate_self (ordered : document.Ordered) (h : Names path document value) :
    relocate path path document = .ok document := by
  obtain ⟨parents, last, htokens, leads⟩ := id h
  obtain ⟨container, hcontainer, step⟩ := leads_append.1 leads
  obtain ⟨context, rfl, site⟩ := hcontainer.exists_site ordered
  obtain ⟨rest, herase, hinsert⟩ := insertChild_eraseChild (hcontainer.ordered ordered)
    (leads_singleton.1 step) path
  refine relocate_eq_ok_iff.2 ⟨value, context rest, h, ?_, ?_⟩
  · change removeAt path (context container) = _
    rw [removeAt, site.place.editParent htokens, herase]
    rfl
  · change addAt path value (context rest) = _
    rw [addAt, if_neg h.ne_empty, site.place.editParent htokens, hinsert]
    rfl

/-- A move of one text onto another one. -/
theorem move_apply_of_ne (h : source ≠ path) :
    (move source path).apply document = .ok after ↔
      ¬ Below source path ∧ relocate source path document = .ok after := by
  rw [apply, if_neg h]
  split
  · next hbelow => simp [isSome_after?_iff.1 hbelow]
  · next hbelow =>
    rw [isSome_after?_iff] at hbelow
    rw [and_iff_right hbelow]
    rfl

/-- A move from a place that holds a value, or to another text, applies exactly if its pointer does
not go on behind the one it moves from, and the value can be removed and then added; and that is
what it makes of the document. For valid pointers the tokens say the same as the texts. A move onto
the same text leaves the document as it is, also where there is nothing. -/
theorem move_apply (ordered : document.Ordered) (source path : String) :
    (source = path → (move source path).apply document = .ok document) ∧
    ((source = path → ∃ value, Names source document value) → ∀ after,
      (move source path).apply document = .ok after ↔
        ¬ Below source path ∧ ∃ value without, Names source document value ∧
          (remove source).apply document = .ok without ∧
          (add path value).apply without = .ok after) ∧
    (Valid source → Valid path →
      (Below source path ↔ ∃ names token more, Pointer.tokens source = .ok names ∧
        Pointer.tokens path = .ok (names ++ token :: more))) := by
  have hself : source = path → (move source path).apply document = .ok document := fun h => if_pos h
  refine ⟨hself, ?_, below_iff⟩
  intro hnames after
  rw [← relocate_eq_ok_iff]
  by_cases h : source = path
  · obtain ⟨value, names⟩ := hnames h
    rw [hself h]
    subst h
    rw [relocate_self ordered names, and_iff_right not_below_self]
  · exact move_apply_of_ne h

theorem move_apply_sample :
    let document := Json.ofMembers [("a", .array [.int 1, .int 2]), ("b", .null)]
    document.Ordered ∧ ∃ after, (move "/a/0" "/a/-").apply document = .ok after ∧
      ¬ Below "/a/0" "/a/-" ∧ ∃ value without, Names "/a/0" document value ∧
        (remove "/a/0").apply document = .ok without ∧
          (add "/a/-" value).apply without = .ok after := by
  intro document
  have ordered : document.Ordered := Json.ordered_ofMembers (by
    simp [Json.Ordered.null, Json.Ordered.int, Json.Ordered.array])
  have h : (move "/a/0" "/a/-").apply document =
      .ok (Json.ofMembers [("a", .array [.int 2, .int 1]), ("b", .null)]) := by
    rfl
  exact ⟨ordered, _, h,
    ((move_apply ordered "/a/0" "/a/-").2.1 (fun hsame => absurd hsame (by decide)) _).1 h⟩

/-- A move of a missing member onto itself applies, and so does one of the whole document. -/
theorem move_missing :
    (move "/b" "/b").apply (Json.ofMembers [("a", .int 1)]) =
        .ok (Json.ofMembers [("a", .int 1)]) ∧
      (∀ value, ¬ Names "/b" (Json.ofMembers [("a", .int 1)]) value) ∧
      (∃ error, (remove "/b").apply (Json.ofMembers [("a", .int 1)]) = .error error) ∧
      (move "" "").apply .null = .ok .null ∧ ∀ value, ¬ Names "" .null value := by
  refine ⟨rfl, ?_, ⟨_, rfl⟩, rfl, fun value names => names.ne_empty rfl⟩
  intro value names
  have hmissing : valueAt "/b" (Json.ofMembers [("a", .int 1)]) = .error (.notFound "/b") := rfl
  cases hmissing.symm.trans names.valueAt

end Operation

end AnchoredDid
