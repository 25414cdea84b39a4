import AnchoredDid.Proofs.Patch.Location

/-!
# Pointer texts

RFC 6901 writes a pointer as a slash before each of its tokens, and in a token lets a tilde stand
before `0` or `1` only (`Pointer.Valid`). Such a text is determined by what it stands for. A patch
takes more texts than these: whatever is empty or starts with a slash, where a tilde before anything
else stands for itself, and any text at all in a move onto the same place, which does not read it
(`Patch.pointers_of_apply`).
-/

namespace AnchoredDid

namespace Pointer

variable {path other : String} {names : List String}

/-- The text of a token by RFC 6901. -/
inductive Spelling : List Char → Prop
  | nil : Spelling []
  | tilde {rest : List Char} (h : Spelling rest) : Spelling ('~' :: '0' :: rest)
  | slash {rest : List Char} (h : Spelling rest) : Spelling ('~' :: '1' :: rest)
  | plain {c : Char} {rest : List Char} (htilde : c ≠ '~') (hslash : c ≠ '/') (h : Spelling rest) :
      Spelling (c :: rest)

/-- A pointer by RFC 6901: a slash before each of its tokens. -/
def Valid (path : String) : Prop :=
  ∃ parts : List (List Char), (∀ part ∈ parts, Spelling part) ∧
    path.toList = parts.flatMap ('/' :: ·)

/-- Each tilde stands before `0` or `1`. -/
def Escaped : List Char → Prop
  | [] => True
  | c :: rest => (c = '~' → rest.head? = some '0' ∨ rest.head? = some '1') ∧ Escaped rest

/-! ## Tokens -/

theorem spelling_escape (name : List Char) : Spelling (escape name) := by
  induction name using escape.induct with
  | case1 => exact .nil
  | case2 rest ih => exact .tilde ih
  | case3 rest ih => exact .slash ih
  | case4 c rest htilde hslash ih =>
      rw [escape]
      · exact .plain htilde hslash ih
      · exact htilde
      · exact hslash

theorem Spelling.slash_not_mem {part : List Char} (h : Spelling part) : '/' ∉ part := by
  induction h with
  | nil => exact List.not_mem_nil
  | tilde _ ih => simpa using ih
  | slash _ ih => simpa using ih
  | plain _ hslash _ ih => exact List.not_mem_cons_of_ne_of_not_mem hslash.symm ih

theorem Spelling.escape_unescape {part : List Char} (h : Spelling part) :
    escape (unescape part) = part := by
  induction h with
  | nil => rfl
  | tilde _ ih => rw [unescape, escape, ih]
  | slash _ ih => rw [unescape, escape, ih]
  | plain htilde hslash _ ih =>
      rw [unescape, escape, ih]
      · exact htilde
      · exact hslash
      · rintro _ rfl _
        exact htilde rfl
      · rintro _ rfl _
        exact htilde rfl

theorem escaped_append_slash (chars more : List Char) :
    Escaped (chars ++ '/' :: more) ↔ Escaped chars ∧ Escaped more := by
  induction chars with
  | nil => simp [Escaped]
  | cons c chars ih => cases chars <;> simp_all [Escaped, and_assoc]

theorem escaped_flatMap (part : List Char) (parts : List (List Char)) :
    Escaped (part ++ parts.flatMap ('/' :: ·)) ↔ ∀ p ∈ part :: parts, Escaped p := by
  induction parts generalizing part with
  | nil => simp
  | cons next parts ih =>
      rw [List.flatMap_cons, List.cons_append, escaped_append_slash, ih,
        List.forall_mem_cons (a := part)]

theorem spelling_iff {part : List Char} : Spelling part ↔ Escaped part ∧ '/' ∉ part := by
  constructor
  · intro h
    refine ⟨?_, h.slash_not_mem⟩
    induction h with
    | nil => trivial
    | tilde _ ih => simpa [Escaped] using ih
    | slash _ ih => simpa [Escaped] using ih
    | plain htilde _ _ ih => exact ⟨fun h => absurd h htilde, ih⟩
  · rintro ⟨hescaped, hslash⟩
    induction part with
    | nil => exact .nil
    | cons c rest ih =>
        obtain ⟨hc, hrest⟩ := List.ne_and_not_mem_of_not_mem_cons hslash
        have spelling : Spelling rest := ih hescaped.2 hrest
        by_cases htilde : c = '~'
        · subst htilde
          rcases hescaped.1 rfl with hhead | hhead
          · obtain ⟨rest, rfl⟩ := List.head?_eq_some_iff.1 hhead
            cases spelling with
            | plain _ _ h => exact .tilde h
          · obtain ⟨rest, rfl⟩ := List.head?_eq_some_iff.1 hhead
            cases spelling with
            | plain _ _ h => exact .slash h
        · exact .plain htilde hc.symm spelling

/-! ## Texts -/

/-- A valid pointer is read token by token. -/
theorem tokens_of_flatMap {parts : List (List Char)} (h : ∀ part ∈ parts, Spelling part)
    (hpath : path.toList = parts.flatMap ('/' :: ·)) :
    Pointer.tokens path = .ok (parts.map fun part => String.ofList (unescape part)) := by
  cases parts with
  | nil => rw [Pointer.tokens, hpath]; rfl
  | cons part parts =>
      have hsplit := Text.splitAll_flatMap fun p hp => (h p hp).slash_not_mem
      rw [Pointer.tokens, hpath, List.flatMap_cons, List.cons_append]
      exact congrArg (fun ps => Except.ok (ps.map fun p => String.ofList (unescape p))) hsplit

/-- The parts of a valid pointer are the names along it, escaped. -/
theorem Valid.toList_eq (h : Valid path) (htokens : Pointer.tokens path = .ok names) :
    path.toList = names.flatMap fun name => '/' :: escape name.toList := by
  obtain ⟨parts, hparts, hpath⟩ := h
  rw [tokens_of_flatMap hparts hpath] at htokens
  cases htokens
  rw [hpath, List.flatMap_map]
  refine congrArg List.flatten (List.map_congr_left fun part hpart => ?_)
  rw [String.toList_ofList, (hparts part hpart).escape_unescape]

theorem Valid.rooted (h : Valid path) : Rooted path := by
  obtain ⟨parts, hparts, hpath⟩ := h
  exact exists_tokens_iff.1 ⟨_, tokens_of_flatMap hparts hpath⟩

/-- Of the texts that can be read, the valid ones are those without a lone tilde. -/
theorem valid_iff : Valid path ↔ Rooted path ∧ Escaped path.toList := by
  constructor
  · intro h
    refine ⟨h.rooted, ?_⟩
    obtain ⟨parts, hparts, hpath⟩ := h
    rw [hpath]
    cases parts with
    | nil => trivial
    | cons part parts =>
        rw [List.flatMap_cons, List.cons_append]
        refine ⟨fun h => absurd h (by decide), (escaped_flatMap part parts).2 ?_⟩
        intro p hp
        exact (spelling_iff.1 (hparts p hp)).1
  · rintro ⟨rfl | ⟨rest, hrest⟩, hescaped⟩
    · exact ⟨[], nofun, rfl⟩
    · obtain ⟨part, parts, hslash, rfl⟩ := Text.exists_parts '/' rest
      rw [hrest] at hescaped
      refine ⟨part :: parts, ?_, hrest⟩
      intro p hp
      exact spelling_iff.2 ⟨(escaped_flatMap part parts).1 hescaped.2 p hp, hslash p hp⟩

/-- Names are written as a valid pointer in one way. -/
theorem existsUnique_valid (names : List String) :
    ∃! path, Valid path ∧ Pointer.tokens path = .ok names := by
  have hparts : ∀ part ∈ names.map fun name => escape name.toList, Spelling part :=
    List.forall_mem_map.2 fun name _ => spelling_escape name.toList
  refine ⟨String.ofList ((names.map fun name => escape name.toList).flatMap ('/' :: ·)),
    ⟨⟨_, hparts, String.toList_ofList⟩, ?_⟩, ?_⟩
  · rw [tokens_of_flatMap hparts String.toList_ofList, List.map_map]
    refine congrArg Except.ok ((List.map_congr_left fun name _ => ?_).trans (List.map_id names))
    simp [unescape_escape]
  · rintro other ⟨hvalid, htokens⟩
    rw [← String.ofList_toList (s := other), hvalid.toList_eq htokens, List.flatMap_map]

/-- A value that some tokens lead to. -/
theorem exists_leads (names : List String) (value : Json) :
    ∃ document, Leads names document value := by
  induction names with
  | nil => exact ⟨value, .here value⟩
  | cons name names ih =>
      obtain ⟨inner, hinner⟩ := ih
      exact ⟨.object [(name, inner)], .into (.member (by simp [Members.find?])) hinner⟩

end Pointer

open Pointer

namespace Operation

/-- The texts of an operation that are meant as pointers. -/
def pointers : Operation → List String
  | add path _ | remove path | replace path _ | test path _ => [path]
  | move source path | copy source path => [source, path]

variable {operation : Operation} {path source : String} {value document after : Json}

/-- Whatever reads the tokens of a text takes no other texts. -/
theorem rooted_of_bind {α : Type} {f : List String → Except PatchError α} {result : α}
    (h : Pointer.tokens path >>= f = .ok result) : Rooted path := by
  obtain ⟨tokens, htokens, -⟩ := bind_eq_ok_iff.1 h
  exact exists_tokens_iff.1 ⟨tokens, htokens⟩

theorem rooted_of_addAt (h : addAt path value document = .ok after) : Rooted path := by
  rw [addAt] at h
  split at h
  · next hpath => exact .inl hpath
  · exact rooted_of_bind h

/-- An operation reads all its pointers, but for a move of a text onto itself. -/
theorem rooted_of_apply (h : operation.apply document = .ok after) :
    (∃ path, operation = move path path) ∨ ∀ path ∈ operation.pointers, Rooted path := by
  cases operation with
  | add path value => exact .inr (List.forall_mem_singleton.2 (rooted_of_addAt h))
  | remove path => exact .inr (List.forall_mem_singleton.2 (rooted_of_bind h))
  | replace path value => exact .inr (List.forall_mem_singleton.2 (rooted_of_bind h))
  | move source path =>
      rw [apply] at h
      split at h
      · next hsame => exact .inl ⟨path, hsame ▸ rfl⟩
      · split at h
        · cases h
        · obtain ⟨value, hvalue, h⟩ := bind_eq_ok_iff.1 h
          obtain ⟨without, -, h⟩ := bind_eq_ok_iff.1 h
          exact .inr (List.forall_mem_cons.2
            ⟨rooted_of_bind hvalue, List.forall_mem_singleton.2 (rooted_of_addAt h)⟩)
  | copy source path =>
      obtain ⟨value, hvalue, h⟩ := bind_eq_ok_iff.1 h
      exact .inr (List.forall_mem_cons.2
        ⟨rooted_of_bind hvalue, List.forall_mem_singleton.2 (rooted_of_addAt h)⟩)
  | test path value =>
      obtain ⟨found, hfound, -⟩ := bind_eq_ok_iff.1 h
      exact .inr (List.forall_mem_singleton.2 (rooted_of_bind hfound))

end Operation

namespace Patch

variable {patch : Patch} {operation : Operation} {document after : Json}

/-- In a patch that applies, each operation has been applied to some document. -/
theorem exists_apply_of_mem (h : patch.apply document = .ok after) (hmem : operation ∈ patch) :
    ∃ before next, operation.apply before = .ok next := by
  induction patch generalizing document with
  | nil => cases hmem
  | cons first patch ih =>
      rw [apply_cons] at h
      obtain ⟨next, hfirst, h⟩ := bind_eq_ok_iff.1 h
      rcases List.mem_cons.1 hmem with rfl | hmem
      · exact ⟨document, next, hfirst⟩
      · exact ih h hmem

/-- A text that is empty or starts with a slash is taken. -/
theorem exists_apply_test {path : String} (hpath : Rooted path) :
    ∃ document, apply [.test path .null] document = .ok document := by
  obtain ⟨tokens, htokens⟩ := exists_tokens_iff.2 hpath
  obtain ⟨document, hleads⟩ := exists_leads tokens .null
  refine ⟨document, ?_⟩
  have hvalue : Operation.valueAt path document = .ok .null := by
    rw [Operation.valueAt, htokens]
    exact follow_eq_ok_iff.2 hleads
  rw [apply_singleton, Operation.apply, hvalue]
  rfl

/-- In a patch that applies every pointer is empty or starts with a slash, but for moves of a text
onto itself. So its pointers are valid exactly if none has a lone tilde and such moves name
pointers, too. All texts of that form are taken, and each stands for what exactly one valid pointer
stands for. -/
theorem pointers_of_apply (h : patch.apply document = .ok after) :
    (∀ operation ∈ patch, (∃ path, operation = .move path path) ∨
      ∀ path ∈ operation.pointers, Rooted path) ∧
    ((∀ operation ∈ patch, ∀ path ∈ operation.pointers, Valid path) ↔
      ∀ operation ∈ patch, ∀ path ∈ operation.pointers,
        Escaped path.toList ∧ (operation = .move path path → Rooted path)) ∧
    ∀ path, Rooted path →
      (∃ document, apply [.test path .null] document = .ok document) ∧
      ∃! standard, Valid standard ∧ Pointer.tokens standard = Pointer.tokens path := by
  have hrooted : ∀ operation ∈ patch, (∃ path, operation = .move path path) ∨
      ∀ path ∈ operation.pointers, Rooted path := by
    intro operation hmem
    obtain ⟨before, next, happly⟩ := exists_apply_of_mem h hmem
    exact Operation.rooted_of_apply happly
  refine ⟨hrooted, ⟨?_, ?_⟩, ?_⟩
  · intro hvalid operation hmem path hpath
    obtain ⟨rooted, escaped⟩ := valid_iff.1 (hvalid operation hmem path hpath)
    exact ⟨escaped, fun _ => rooted⟩
  · intro hescaped operation hmem path hpath
    obtain ⟨escaped, hself⟩ := hescaped operation hmem path hpath
    refine valid_iff.2 ⟨?_, escaped⟩
    rcases hrooted operation hmem with ⟨other, rfl⟩ | rooted
    · have hsame : path = other := by simpa [Operation.pointers] using hpath
      exact hself (hsame ▸ rfl)
    · exact rooted path hpath
  · intro path hpath
    obtain ⟨tokens, htokens⟩ := exists_tokens_iff.2 hpath
    refine ⟨exists_apply_test hpath, ?_⟩
    rw [htokens]
    exact existsUnique_valid tokens

theorem pointers_of_apply_sample :
    let patch : Patch := [.test "/a~1b/~" (.int 1), .move "none" "none", .copy "/a~1b" "/c"]
    let document := Json.ofMembers [("a/b", Json.ofMembers [("~", .int 1)])]
    ∃ after, patch.apply document = .ok after ∧
      (∀ operation ∈ patch, (∃ path, operation = .move path path) ∨
        ∀ path ∈ operation.pointers, Rooted path) ∧
      ∃! standard, Valid standard ∧ Pointer.tokens standard = Pointer.tokens "/a~1b/~" := by
  intro patch document
  have h : patch.apply document = .ok (Json.ofMembers
      [("a/b", Json.ofMembers [("~", .int 1)]), ("c", Json.ofMembers [("~", .int 1)])]) := by
    rfl
  obtain ⟨rooted, -, texts⟩ := pointers_of_apply h
  exact ⟨_, h, rooted, (texts "/a~1b/~" (.inr ⟨_, rfl⟩)).2⟩

/-- A pointer that is not valid, and two texts of one pointer. -/
theorem lone_tilde :
    (¬ ∀ (patch : Patch) (document after : Json), patch.apply document = .ok after →
      ∀ operation ∈ patch, ∀ path ∈ operation.pointers, Valid path) ∧
    ¬ ∀ path other tokens, Pointer.tokens path = .ok tokens → Pointer.tokens other = .ok tokens →
      path = other := by
  constructor
  · intro h
    have happly : apply [.test "/~" (.int 1)] (Json.ofMembers [("~", .int 1)]) =
        .ok (Json.ofMembers [("~", .int 1)]) := by
      rfl
    have hvalid := h _ _ _ happly _ List.mem_cons_self "/~" List.mem_cons_self
    have hescaped : Escaped ['/', '~'] := (valid_iff.1 hvalid).2
    simp [Escaped] at hescaped
  · intro h
    have hsame : "/~" = "/~0" := h _ _ ["~"] rfl rfl
    exact absurd hsame (by decide)

end Patch

end AnchoredDid
