import AnchoredDid.Proofs.Patch.Diff
import AnchoredDid.Proofs.Patch.Location

/-!
# What an edit changes

An addition, a removal or a replacement applies exactly if its pointer leads to a container that its
last token fits, and then it changes that container at that token and nothing else
(`Operation.edits_apply`): readings at every pointer that leads neither to the container, nor into
it, nor to something around it are as before.

The change of a container is described by what is found in it afterwards (`Operation.Changes`), not
by how it is made.
-/

namespace AnchoredDid

open Pointer

namespace Operation

variable {operation : Operation} {path token : String} {parents : List String} {value : Json}
  {container changed document after : Json}

/-- A token fits a container. An addition may name any member, the end of an array, or an index up
to its length; what is removed or replaced has to be there. -/
inductive Fits : Operation → String → Json → Prop
  | newMember {path name : String} {value : Json} {members : Members Json} :
      Fits (.add path value) name (.object members)
  | atEnd {path : String} {value : Json} {items : List Json} :
      Fits (.add path value) "-" (.array items)
  | before {path : String} {value : Json} {i : Nat} {items : List Json}
    (within : i ≤ items.length) :
      Fits (.add path value) (indexToken i) (.array items)
  | removed {path token : String} {container old : Json} (there : Step token container old) :
      Fits (.remove path) token container
  | replaced {path token : String} {value container old : Json} (there : Step token container old) :
      Fits (.replace path value) token container

/-- What an edit makes of a container: one member is set or left out and all others stay, or one
element is put in, left out or exchanged, and the ones behind it move up or down by one. -/
inductive Changes : Operation → String → Json → Json → Prop
  | addMember {path name : String} {value : Json} {members changed : Members Json}
      (found : ∀ other, Members.find? other changed =
        if other = name then some value else Members.find? other members) :
      Changes (.add path value) name (.object members) (.object changed)
  | addElement {path token : String} {value : Json} {i : Nat} {items changed : List Json}
      (place : token = "-" ∧ i = items.length ∨ token = indexToken i ∧ i ≤ items.length)
      (here : changed[i]? = some value) (earlier : ∀ k, k < i → changed[k]? = items[k]?)
      (later : ∀ k, i ≤ k → changed[k + 1]? = items[k]?) :
      Changes (.add path value) token (.array items) (.array changed)
  | removeMember {path name : String} {old : Json} {members changed : Members Json}
      (there : Members.find? name members = some old)
      (found : ∀ other, Members.find? other changed =
        if other = name then none else Members.find? other members) :
      Changes (.remove path) name (.object members) (.object changed)
  | removeElement {path : String} {i : Nat} {items changed : List Json} (there : i < items.length)
      (earlier : ∀ k, k < i → changed[k]? = items[k]?)
      (later : ∀ k, i ≤ k → changed[k]? = items[k + 1]?) :
      Changes (.remove path) (indexToken i) (.array items) (.array changed)
  | replaceMember {path name : String} {value old : Json} {members changed : Members Json}
      (there : Members.find? name members = some old)
      (found : ∀ other, Members.find? other changed =
        if other = name then some value else Members.find? other members) :
      Changes (.replace path value) name (.object members) (.object changed)
  | replaceElement {path : String} {value : Json} {i : Nat} {items changed : List Json}
      (there : i < items.length) (here : changed[i]? = some value)
      (others : ∀ k, k ≠ i → changed[k]? = items[k]?) :
      Changes (.replace path value) (indexToken i) (.array items) (.array changed)

/-- A document differs from the one before in the container that tokens lead to, and nowhere
else. -/
structure DiffersAt (parents : List String) (container changed document after : Json) : Prop where
  leads : Leads parents document container
  leads_after : Leads parents after changed
  elsewhere : ∀ path tokens, Pointer.tokens path = .ok tokens → ¬ parents <+: tokens →
    ¬ tokens <+: parents → valueAt path after = valueAt path document

/-! ## Containers -/

theorem changes_of_insertChild (h : insertChild path token value container = .ok changed) :
    (add path value).Changes token container changed := by
  have inserted : ∀ (items : List Json) (i : Nat),
      (token = "-" ∧ i = items.length ∨ token = indexToken i ∧ i ≤ items.length) →
      (add path value).Changes token (.array items)
        (.array (items.take i ++ value :: items.drop i)) := by
    intro items i place
    have hi : i ≤ items.length := by omega
    refine .addElement place (by grind) (fun k hk => by grind) (fun k hk => by grind)
  cases container with
  | object members =>
      cases h
      exact .addMember fun other => Members.find?_insert token other value members
  | array items =>
      rw [insertChild] at h
      split at h
      · next hend =>
        cases h
        simpa using inserted items items.length (.inl ⟨hend, rfl⟩)
      · obtain ⟨i, hi, h⟩ := bind_eq_ok_iff.1 h
        cases h
        obtain ⟨hplace, hlt⟩ := index_eq_ok_iff.1 hi
        exact inserted items i (.inr ⟨hplace, Nat.le_of_lt_succ hlt⟩)
  | _ => cases h

theorem insertChild_iff_fits (path : String) :
    (∃ changed, insertChild path token value container = .ok changed) ↔
      (add path value).Fits token container := by
  constructor
  · rintro ⟨changed, h⟩
    cases changes_of_insertChild h with
    | addMember => exact .newMember
    | addElement place =>
        rcases place with ⟨rfl, -⟩ | ⟨rfl, hi⟩
        · exact .atEnd
        · exact .before hi
  · intro fits
    cases fits with
    | newMember => exact ⟨_, rfl⟩
    | atEnd =>
        rw [insertChild, if_pos rfl]
        exact ⟨_, rfl⟩
    | @before _ _ i items within =>
        rw [insertChild]
        split
        · exact ⟨_, rfl⟩
        · rw [index_eq_ok_iff.2 ⟨rfl, Nat.lt_succ_of_le within⟩]
          exact ⟨_, rfl⟩

theorem changes_of_eraseChild (ordered : container.Ordered)
    (h : eraseChild path token container = .ok changed) :
    (remove path).Changes token container changed := by
  cases container with
  | object members =>
      rw [eraseChild] at h
      split at h
      · next old hold =>
        cases h
        exact .removeMember hold (Members.find?_erase ordered.sorted token)
      · cases h
  | array items =>
      obtain ⟨i, hi, h⟩ := bind_eq_ok_iff.1 h
      cases h
      obtain ⟨rfl, hlt⟩ := index_eq_ok_iff.1 hi
      exact .removeElement hlt (fun k hk => List.getElem?_eraseIdx_of_lt hk)
        (fun k hk => List.getElem?_eraseIdx_of_ge hk)
  | _ => cases h

theorem eraseChild_iff_fits (path : String) :
    (∃ changed, eraseChild path token container = .ok changed) ↔
      (remove path).Fits token container := by
  constructor
  · rintro ⟨changed, h⟩
    cases container with
    | object members =>
        rw [eraseChild] at h
        split at h
        · next old hold => exact .removed (.member hold)
        · cases h
    | array items =>
        obtain ⟨i, hi, -⟩ := bind_eq_ok_iff.1 h
        obtain ⟨rfl, hlt⟩ := index_eq_ok_iff.1 hi
        exact .removed (.element (List.getElem?_eq_getElem hlt))
    | _ => cases h
  · intro fits
    cases fits with
    | removed there =>
        cases there with
        | member found => exact ⟨_, by rw [eraseChild, found]⟩
        | element found =>
            obtain ⟨hlt, -⟩ := List.getElem?_eq_some_iff.1 found
            rw [eraseChild, index_eq_ok_iff.2 ⟨rfl, hlt⟩]
            exact ⟨_, rfl⟩

/-- What a replacement makes of the container of its place. -/
theorem changes_of_replaceChild
    (h : editAt path (fun _ => .ok value) [token] container = .ok changed) :
    (replace path value).Changes token container changed := by
  obtain ⟨old, hold, h⟩ := bind_eq_ok_iff.1 h
  cases child_eq_ok_iff.1 hold with
  | @member _ members _ found =>
      cases h
      exact .replaceMember found fun other => Members.find?_insert token other value members
  | @element i items _ found =>
      obtain ⟨hlt, -⟩ := List.getElem?_eq_some_iff.1 found
      change setChild path (indexToken i) value (.array items) = .ok changed at h
      rw [setChild, index_eq_ok_iff.2 ⟨rfl, hlt⟩] at h
      cases h
      exact .replaceElement hlt (List.getElem?_set_self hlt)
        fun k hk => List.getElem?_set_ne (Ne.symm hk)

theorem replaceChild_iff_fits (path : String) :
    (∃ changed, editAt path (fun _ => .ok value) [token] container = .ok changed) ↔
      (replace path value).Fits token container := by
  constructor
  · rintro ⟨changed, h⟩
    obtain ⟨old, hold, -⟩ := bind_eq_ok_iff.1 h
    exact .replaced (child_eq_ok_iff.1 hold)
  · intro fits
    cases fits with
    | replaced there =>
        rw [editAt, child_eq_ok_iff.2 there]
        change ∃ changed, setChild path token value container = .ok changed
        cases there with
        | member found => exact ⟨_, rfl⟩
        | element found =>
            obtain ⟨hlt, -⟩ := List.getElem?_eq_some_iff.1 found
            rw [setChild, index_eq_ok_iff.2 ⟨rfl, hlt⟩]
            exact ⟨_, rfl⟩

/-! ## Documents -/

/-- A replacement replaces in the container that its last token belongs to. -/
theorem replaceAt_eq_editParent (hpath : path ≠ "") (value document : Json) :
    replaceAt path value document =
      editParent path (fun token => editAt path (fun _ => .ok value) [token]) document := by
  rw [replaceAt, editParent]
  cases htokens : Pointer.tokens path with
  | error e => rfl
  | ok tokens =>
      obtain ⟨parents, last, rfl⟩ := exists_last htokens hpath
      simp only [bind, Except.bind, List.getLast?_concat, List.dropLast_concat, editAt_append]

/-- An edit works on the container that its last token belongs to. That can be done exactly if the
token fits, and then makes of the container what it should. -/
theorem Edits.exists_edit (edits : operation.Edits) (hpath : operation.path ≠ "") :
    ∃ edit : String → Json → Except PatchError Json,
      (∀ document, operation.apply document = editParent operation.path edit document) ∧
      (∀ token container, (∃ changed, edit token container = .ok changed) ↔
        operation.Fits token container) ∧
      ∀ token container changed, container.Ordered → edit token container = .ok changed →
        operation.Changes token container changed := by
  cases edits with
  | add path value =>
      exact ⟨fun token => insertChild path token value, fun document => if_neg hpath,
        fun token container => insertChild_iff_fits path,
        fun token container changed _ h => changes_of_insertChild h⟩
  | remove path =>
      exact ⟨eraseChild path, fun document => rfl, fun token container => eraseChild_iff_fits path,
        fun token container changed ordered h => changes_of_eraseChild ordered h⟩
  | replace path value =>
      exact ⟨fun token => editAt path (fun _ => .ok value) [token],
        fun document => replaceAt_eq_editParent hpath value document,
        fun token container => replaceChild_iff_fits path,
        fun token container changed _ h => changes_of_replaceChild h⟩

/-- An edit of a container leaves the document around it as it is. -/
theorem editParent_eq_ok_iff (ordered : document.Ordered) {last : String}
    (htokens : Pointer.tokens path = .ok (parents ++ [last]))
    {edit : String → Json → Except PatchError Json} :
    editParent path edit document = .ok after ↔
      ∃ (context : Json → Json) (container changed : Json), Site parents context ∧
        document = context container ∧ edit last container = .ok changed ∧
        after = context changed := by
  constructor
  · intro h
    have hedit : editAt path (edit last) parents document = .ok after := by
      rw [editParent, htokens] at h
      simpa only [bind, Except.bind, List.getLast?_concat, List.dropLast_concat] using h
    obtain ⟨container, leads⟩ := exists_leads_of_editAt hedit
    obtain ⟨context, rfl, site⟩ := leads.exists_site ordered
    rw [site.place] at hedit
    cases hchanged : edit last container with
    | error e =>
        rw [hchanged] at hedit
        cases hedit
    | ok changed =>
        rw [hchanged] at hedit
        exact ⟨context, container, changed, site, rfl, hchanged, (Except.ok.inj hedit).symm⟩
  · rintro ⟨context, container, changed, site, rfl, hchanged, rfl⟩
    rw [site.place.editParent htokens, hchanged]
    rfl

theorem differsAt_of_site {context : Json → Json} (site : Site parents context)
    (container changed : Json) :
    DiffersAt parents container changed (context container) (context changed) where
  leads := site.leads container
  leads_after := site.leads changed
  elsewhere path tokens htokens hbelow habove := by
    simp only [valueAt, htokens, bind, Except.bind]
    exact site.elsewhere path tokens hbelow habove changed container

/-- An edit behind the root applies exactly if its text starts with a slash, the tokens before the
last one lead to a container, and the last one fits it. Then it changes that container as it should,
and what is read at any pointer that leads neither to the container, nor into it, nor to something
around it is what was read there before. -/
theorem edits_apply (ordered : document.Ordered) (edits : operation.Edits)
    (hpath : operation.path ≠ "") :
    ((∃ after, operation.apply document = .ok after) ↔
      (∃ rest, operation.path.toList = '/' :: rest) ∧
      ∃ parents last container, Pointer.tokens operation.path = .ok (parents ++ [last]) ∧
        Leads parents document container ∧ operation.Fits last container) ∧
    ∀ after, operation.apply document = .ok after →
      ∃ parents last container changed,
        Pointer.tokens operation.path = .ok (parents ++ [last]) ∧
        operation.Changes last container changed ∧
        DiffersAt parents container changed document after := by
  obtain ⟨edit, hedit, hfits, hchanges⟩ := edits.exists_edit hpath
  have hsite : ∀ after, operation.apply document = .ok after →
      ∃ parents last container changed,
        Pointer.tokens operation.path = .ok (parents ++ [last]) ∧
        edit last container = .ok changed ∧ DiffersAt parents container changed document after := by
    intro after h
    rw [hedit] at h
    obtain ⟨tokens, htokens, -⟩ := bind_eq_ok_iff.1 h
    obtain ⟨parents, last, rfl⟩ := exists_last htokens hpath
    obtain ⟨context, container, changed, site, rfl, hchanged, rfl⟩ :=
      (editParent_eq_ok_iff ordered htokens).1 h
    exact ⟨parents, last, container, changed, htokens, hchanged, differsAt_of_site site _ _⟩
  refine ⟨⟨?_, ?_⟩, ?_⟩
  · rintro ⟨after, h⟩
    obtain ⟨parents, last, container, changed, htokens, hchanged, differs⟩ := hsite after h
    exact ⟨(exists_tokens_iff.1 ⟨_, htokens⟩).resolve_left hpath,
      parents, last, container, htokens, differs.leads,
      (hfits last container).1 ⟨changed, hchanged⟩⟩
  · rintro ⟨-, parents, last, container, htokens, leads, fits⟩
    obtain ⟨changed, hchanged⟩ := (hfits last container).2 fits
    obtain ⟨context, rfl, site⟩ := leads.exists_site ordered
    refine ⟨context changed, ?_⟩
    rw [hedit]
    exact (editParent_eq_ok_iff ordered htokens).2
      ⟨context, container, changed, site, rfl, hchanged, rfl⟩
  · intro after h
    obtain ⟨parents, last, container, changed, htokens, hchanged, differs⟩ := hsite after h
    exact ⟨parents, last, container, changed, htokens,
      hchanges last container changed (differs.leads.ordered ordered) hchanged, differs⟩

theorem edits_apply_sample :
    let document := Json.ofMembers [("a/b", .array [.int 1, .int 2]), ("k", .null)]
    let operation := add "/a~1b/1" (.bool true)
    document.Ordered ∧ operation.Edits ∧ operation.path ≠ "" ∧
    ∃ after, operation.apply document = .ok after ∧
      ∃ parents last container changed,
        Pointer.tokens operation.path = .ok (parents ++ [last]) ∧
        operation.Changes last container changed ∧
        DiffersAt parents container changed document after := by
  intro document operation
  have ordered : document.Ordered := Json.ordered_ofMembers (by
    simp [Json.Ordered.null, Json.Ordered.int, Json.Ordered.array])
  have edits : operation.Edits := .add _ _
  have hpath : operation.path ≠ "" := by decide
  have one : indexToken 1 = "1" := by decide
  have htokens : Pointer.tokens operation.path = .ok (["a/b"] ++ [indexToken 1]) := by
    rw [one]
    change Pointer.tokens "/a~1b/1" = _
    rfl
  have hslash : operation.path.toList = '/' :: "a~1b/1".toList := by decide
  have leads : Leads ["a/b"] document (.array [.int 1, .int 2]) :=
    .into (.member (by rw [Members.find?_ofList]; rfl)) (.here _)
  have fits : operation.Fits (indexToken 1) (.array [.int 1, .int 2]) := .before (by decide)
  obtain ⟨applies, changes⟩ := edits_apply ordered edits hpath
  obtain ⟨after, h⟩ := applies.2 ⟨⟨_, hslash⟩, ["a/b"], _, _, htokens, leads, fits⟩
  exact ⟨ordered, edits, hpath, after, h, changes after h⟩

end Operation

end AnchoredDid
