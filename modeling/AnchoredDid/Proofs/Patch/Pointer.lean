import AnchoredDid.Patch.Diff
import AnchoredDid.Proofs.Json.Members
import AnchoredDid.Proofs.Number.Digits
import AnchoredDid.Proofs.Patch

/-!
# Places in a value

The pointers that a difference is made of lead where they are meant to: a token is read as the name
or index that it was written for. What stands around a place is a function of what stands there
(`Pointer.Place`), so an operation on the place is an operation on what stands there alone.
-/

namespace AnchoredDid

namespace Text

theorem splitAll_of_not_mem {separator : Char} {part : List Char} (h : separator ∉ part) :
    splitAll separator part = [part] := by
  induction part with
  | nil => rfl
  | cons c part ih =>
      obtain ⟨hc, hpart⟩ := List.ne_and_not_mem_of_not_mem_cons h
      rw [splitAll, if_neg hc.symm, ih hpart]

theorem splitAll_ne_nil (separator : Char) (text : List Char) : splitAll separator text ≠ [] := by
  cases text with
  | nil => exact List.cons_ne_nil _ _
  | cons c text =>
      rw [splitAll]
      split
      · exact List.cons_ne_nil _ _
      · cases splitAll separator text <;> exact List.cons_ne_nil _ _

/-- A separator ends one part and begins another. -/
theorem splitAll_append_separator (separator : Char) (text more : List Char) :
    splitAll separator (text ++ separator :: more) =
      splitAll separator text ++ splitAll separator more := by
  induction text with
  | nil => simp [splitAll]
  | cons c text ih =>
      rw [List.cons_append, splitAll, splitAll, ih]
      split
      · rfl
      · cases hparts : splitAll separator text with
        | nil => exact absurd hparts (splitAll_ne_nil separator text)
        | cons _ _ => rfl

/-- Every text has parts without separators. -/
theorem exists_parts (separator : Char) (text : List Char) :
    ∃ part parts, (∀ p ∈ part :: parts, separator ∉ p) ∧
      text = part ++ parts.flatMap (separator :: ·) := by
  induction text with
  | nil => exact ⟨[], [], by simp, rfl⟩
  | cons c text ih =>
      obtain ⟨part, parts, hfree, rfl⟩ := ih
      by_cases hc : c = separator
      · exact ⟨[], part :: parts, by simpa using hfree, by simp [hc]⟩
      · obtain ⟨hpart, hparts⟩ := List.forall_mem_cons.1 hfree
        exact ⟨c :: part, parts, List.forall_mem_cons.2
          ⟨List.not_mem_cons_of_ne_of_not_mem (Ne.symm hc) hpart, hparts⟩, rfl⟩

/-- Parts without separators are what their text is split into. -/
theorem splitAll_flatMap {separator : Char} {part : List Char} {parts : List (List Char)}
    (h : ∀ p ∈ part :: parts, separator ∉ p) :
    splitAll separator (part ++ parts.flatMap (separator :: ·)) = part :: parts := by
  induction parts generalizing part with
  | nil =>
      rw [List.flatMap_nil, List.append_nil, splitAll_of_not_mem (h part List.mem_cons_self)]
  | cons next parts ih =>
      obtain ⟨hpart, hparts⟩ := List.forall_mem_cons.1 h
      rw [List.flatMap_cons, List.cons_append, splitAll_append_separator, ih hparts,
        splitAll_of_not_mem hpart, List.singleton_append]

end Text

namespace Pointer

/-! ## Tokens -/

theorem unescape_of_not_mem {chars : List Char} (h : '~' ∉ chars) : unescape chars = chars := by
  induction chars with
  | nil => rfl
  | cons c chars ih =>
      obtain ⟨hc, hchars⟩ := List.ne_and_not_mem_of_not_mem_cons h
      rw [unescape, ih hchars]
      · rintro rest rfl _
        exact hc rfl
      · rintro rest rfl _
        exact hc rfl

theorem unescape_escape (name : List Char) : unescape (escape name) = name := by
  induction name using escape.induct with
  | case1 => rfl
  | case2 rest ih => rw [escape, unescape, ih]
  | case3 rest ih => rw [escape, unescape, ih]
  | case4 c rest htilde hslash ih =>
      rw [escape, unescape, ih]
      · rintro _ rfl _
        exact htilde rfl
      · rintro _ rfl _
        exact htilde rfl
      · exact htilde
      · exact hslash

theorem not_mem_escape (name : List Char) : '/' ∉ escape name := by
  induction name using escape.induct with
  | case1 => exact List.not_mem_nil
  | case2 rest ih => simpa [escape] using ih
  | case3 rest ih => simpa [escape] using ih
  | case4 c rest htilde hslash ih =>
      rw [escape]
      · exact List.not_mem_cons_of_ne_of_not_mem (fun h => hslash h.symm) ih
      · exact htilde
      · exact hslash

/-- A longer pointer has one more token. -/
theorem tokens_append {path : String} {tokens : List String}
    (h : Pointer.tokens path = .ok tokens) {token : List Char} (hslash : '/' ∉ token) :
    Pointer.tokens (path ++ "/" ++ String.ofList token) =
      .ok (tokens ++ [String.ofList (unescape token)]) := by
  have hlist : (path ++ "/" ++ String.ofList token).toList = path.toList ++ '/' :: token := by
    simp
  rw [Pointer.tokens] at h
  rw [Pointer.tokens, hlist]
  split at h
  · next hempty =>
    cases h
    rw [hempty]
    simp [Text.splitAll_of_not_mem hslash]
  · next rest hrest =>
    cases h
    rw [hrest]
    simp [Text.splitAll_append_separator, Text.splitAll_of_not_mem hslash]
  · cases h

theorem tokens_extend {path : String} {tokens : List String} (h : Pointer.tokens path = .ok tokens)
    (name : String) : Pointer.tokens (extend path name) = .ok (tokens ++ [name]) := by
  rw [extend, tokens_append h (not_mem_escape _), unescape_escape, String.ofList_toList]

/-! ## Indices -/

theorem index?_toDigits (n : Nat) : index? (String.ofList (Nat.toDigits 10 n)) = some n := by
  have hvalue : (Nat.toDigits 10 n).foldl (fun n c => 10 * n + (c.toNat - 48)) 0 = n :=
    Nat.ofDigitChars_ten_toDigits
  have hdigits : (Nat.toDigits 10 n).all Char.isDigit = true :=
    List.all_eq_true.2 fun c => Nat.isDigit_of_mem_toDigits (by decide) (by decide)
  rw [index?, String.toList_ofList]
  split
  · next hnil => exact absurd hnil Nat.toDigits_ne_nil
  · next hzero =>
    rw [hzero] at hvalue
    rw [← hvalue]
    rfl
  · next rest hnot hzero =>
    have hn : n = 0 := Nat.eq_zero_of_not_pos fun hn =>
      Digits.head?_toDigits hn (by rw [hzero, List.head?_cons])
    rw [hn, Nat.toDigits_zero] at hzero
    cases hzero
    exact absurd rfl hnot
  · rw [if_pos hdigits, hvalue]

theorem tokens_elementPath {path : String} {tokens : List String}
    (h : Pointer.tokens path = .ok tokens) (i : Nat) :
    Pointer.tokens (Patch.elementPath path i) =
      .ok (tokens ++ [String.ofList (Nat.toDigits 10 i)]) := by
  have hdigit : ∀ c ∈ Nat.toDigits 10 i, c.isDigit = true := fun c =>
    Nat.isDigit_of_mem_toDigits (by decide) (by decide)
  have hslash : '/' ∉ Nat.toDigits 10 i := fun hmem => absurd (hdigit _ hmem) (by decide)
  have htilde : '~' ∉ Nat.toDigits 10 i := fun hmem => absurd (hdigit _ hmem) (by decide)
  rw [Patch.elementPath, tokens_append h hslash, unescape_of_not_mem htilde]

theorem index_toDigits (path : String) {i bound : Nat} (h : i < bound) :
    index path (String.ofList (Nat.toDigits 10 i)) bound = .ok i := by
  rw [index, index?_toDigits]
  exact if_pos h

/-! ## Places -/

/-- Tokens lead to what a context is filled with, and an edit there leaves the context as it is. -/
def Place (tokens : List String) (context : Json → Json) : Prop :=
  ∀ path edit value, editAt path edit tokens (context value) = (edit value).map context

theorem editAt_append (path : String) (edit : Json → Except PatchError Json)
    (tokens later : List String) (value : Json) :
    editAt path edit (tokens ++ later) value =
      editAt path (editAt path edit later) tokens value := by
  induction tokens generalizing value with
  | nil => rfl
  | cons token tokens ih =>
      rw [List.cons_append, editAt, editAt]
      simp only [ih]

namespace Place

variable {tokens : List String} {context : Json → Json} {token path : String}

theorem root : Place [] id := by
  intro path edit value
  rw [editAt_nil, id]
  cases edit value <;> rfl

/-- A place in a place. -/
theorem append (h : Place tokens context) {inner : Json → Json} (hinner : Place [token] inner) :
    Place (tokens ++ [token]) fun value => context (inner value) := by
  intro path edit value
  rw [editAt_append, h, hinner]
  cases edit value <;> rfl

theorem member (name : String) (members : Members Json) :
    Place [name] fun value => .object (Members.insert name value members) := by
  intro path edit value
  have hchild : child path name (.object (Members.insert name value members)) = .ok value := by
    rw [child, Members.find?_insert_self]
  rw [editAt, hchild]
  change edit value >>= (fun edited => setChild path name edited _) = _
  cases edit value with
  | error e => rfl
  | ok edited => exact congrArg (Except.ok ∘ Json.object) (Members.insert_insert name _ _ members)

theorem element (before after : List Json) :
    Place [String.ofList (Nat.toDigits 10 before.length)] fun value =>
      .array (before ++ value :: after) := by
  intro path edit value
  have hindex := index_toDigits path
    (show before.length < (before ++ value :: after).length by simp)
  have hchild : child path (String.ofList (Nat.toDigits 10 before.length))
      (.array (before ++ value :: after)) = .ok value := by
    rw [child, hindex]
    simp [bind, Except.bind]
  rw [editAt, hchild]
  change edit value >>= (fun edited => setChild path _ edited _) = _
  cases edit value with
  | error e => rfl
  | ok edited =>
      change setChild path _ edited (.array (before ++ value :: after)) = _
      rw [setChild, hindex]
      simp [bind, Except.bind, Except.map]

theorem editParent (h : Place tokens context)
    (hpath : Pointer.tokens path = .ok (tokens ++ [token]))
    (edit : String → Json → Except PatchError Json) (value : Json) :
    Operation.editParent path edit (context value) = (edit token value).map context := by
  rw [Operation.editParent, hpath]
  simp only [bind, Except.bind, List.getLast?_concat, List.dropLast_concat]
  exact h path (edit token) value

end Place

end Pointer

end AnchoredDid
