import AnchoredDid.Proofs.Genesis.Creation
import AnchoredDid.Proofs.Text.Replace

/-!
# What is left of the placeholder

A genesis document is the supplied value with the identifier in place of the placeholder, and
differs from it nowhere else (`Genesis.Filled`). The placeholder is left in it in two ways
(`Genesis.becomes_filled`): names of members stay as they are, and an identifier that ends with the
letter the placeholder begins with makes a new one where a value goes on with the rest of it. Both
happen (`Genesis.placeholder_survives`).
-/

namespace AnchoredDid

/-! ## The strings in a value -/

/-- What a string in a value is: a value itself, or the name of a member. -/
inductive StringRole where
  | value
  | name
  deriving DecidableEq

namespace Json

mutual

/-- All strings in a value, the names of members among them. -/
def strings : Json → List (StringRole × String)
  | string s => [(.value, s)]
  | array items => stringsOfItems items
  | object members => stringsOfMembers members
  | _ => []

def stringsOfItems : List Json → List (StringRole × String)
  | [] => []
  | item :: rest => strings item ++ stringsOfItems rest

def stringsOfMembers : List (String × Json) → List (StringRole × String)
  | [] => []
  | (name, value) :: rest => (.name, name) :: (strings value ++ stringsOfMembers rest)

end

end Json

namespace Genesis

variable {did : List Char} {i : Identifier} {ending : List Char}

/-- The placeholder stands somewhere in a string. -/
def Holds (s : String) : Prop := placeholder.toList <:+: s.toList

/-- The placeholder stands in a string with all of a second one but its first letter behind it. -/
def HoldsMore (s : String) : Prop := placeholder.toList ++ placeholder.toList.tail <:+: s.toList

instance (s : String) : Decidable (Holds s) := inferInstanceAs (Decidable (_ <:+: _))

instance (s : String) : Decidable (HoldsMore s) := inferInstanceAs (Decidable (_ <:+: _))

/-! ## One change after another -/

/-- The same value, but for the identifier where the placeholder was in strings that are values:
between the pieces of such a string, which do not hold it themselves. -/
inductive Filled (did : List Char) : Json → Json → Prop where
  | null : Filled did .null .null
  | bool (b : Bool) : Filled did (.bool b) (.bool b)
  | int (n : Int) : Filled did (.int n) (.int n)
  | double (x : Double) : Filled did (.double x) (.double x)
  | string {s t : String} (pieces : List (List Char))
      (free : ∀ piece ∈ pieces, ¬ placeholder.toList <:+: piece)
      (source : s.toList = placeholder.toList.intercalate pieces)
      (result : t.toList = did.intercalate pieces) : Filled did (.string s) (.string t)
  | array {xs ys : List Json} (each : List.Forall₂ (Filled did) xs ys) :
      Filled did (.array xs) (.array ys)
  | object {ms ns : List (String × Json)} (each : List.Forall₂ (Members.Named (Filled did)) ms ns) :
      Filled did (.object ms) (.object ns)

theorem toList_placeholder :
    placeholder.toList = 'd' :: 'i' :: ("d:btcr2:".toList ++ List.replicate 63 '_') := by
  rw [placeholder, String.toList_append, String.toList_ofList]
  rfl

theorem placeholder_ne_nil : placeholder.toList ≠ [] := by
  rw [toList_placeholder]
  exact List.cons_ne_nil _ _

mutual

theorem filled_fill (did : List Char) : ∀ value : Json, Filled did value (fill did value)
  | .null => .null
  | .bool b => .bool b
  | .int n => .int n
  | .double x => .double x
  | .string s => by
      obtain ⟨first, others, hfree, hsource, hresult⟩ :=
        Text.exists_pieces placeholder_ne_nil did s.toList
      exact .string (first :: others) hfree hsource (by rw [String.toList_ofList, hresult])
  | .array items => .array (filled_fillItems did items)
  | .object members => .object (filled_fillMembers did members)

theorem filled_fillItems (did : List Char) :
    ∀ items : List Json, List.Forall₂ (Filled did) items (fillItems did items)
  | [] => .nil
  | item :: rest => .cons (filled_fill did item) (filled_fillItems did rest)

theorem filled_fillMembers (did : List Char) : ∀ members : List (String × Json),
    List.Forall₂ (Members.Named (Filled did)) members (fillMembers did members)
  | [] => .nil
  | (name, value) :: rest =>
    .cons (.intro name (filled_fill did value)) (filled_fillMembers did rest)

end

/-- What becomes of a string. -/
def fillString (did : List Char) : StringRole × String → StringRole × String
  | (.value, s) => (.value, String.ofList (Text.replaceAll placeholder.toList did s.toList))
  | (.name, s) => (.name, s)

mutual

theorem strings_fill (did : List Char) :
    ∀ value : Json, (fill did value).strings = value.strings.map (fillString did)
  | .null | .bool _ | .int _ | .double _ | .string _ => rfl
  | .array items => stringsOfItems_fill did items
  | .object members => stringsOfMembers_fill did members

theorem stringsOfItems_fill (did : List Char) : ∀ items : List Json,
    Json.stringsOfItems (fillItems did items) = (Json.stringsOfItems items).map (fillString did)
  | [] => rfl
  | item :: rest => by
      rw [fillItems, Json.stringsOfItems, Json.stringsOfItems, List.map_append,
        strings_fill did item, stringsOfItems_fill did rest]

theorem stringsOfMembers_fill (did : List Char) : ∀ members : List (String × Json),
    Json.stringsOfMembers (fillMembers did members) =
      (Json.stringsOfMembers members).map (fillString did)
  | [] => rfl
  | (name, value) :: rest => by
      rw [fillMembers, Json.stringsOfMembers, Json.stringsOfMembers, List.map_cons, List.map_append,
        strings_fill did value, stringsOfMembers_fill did rest, fillString]

end

/-! ## The identifier in place of the placeholder -/

/-- The text of an external identifier up to its separator. -/
def lead : List Char := Identifier.method.toList ++ ['x']

theorem toList_external (h : i.kind = .external) :
    i.text.toList = lead ++ '1' :: i.symbols.map Bech32.Symbol.char := by
  rw [i.toList_text, h, lead]
  simp [IdentifierKind.label]

theorem symbol_char_ne : ∀ s : Bech32.Symbol, s.char ≠ '_' ∧ s.char ≠ 'i' := by
  decide

/-- From its separator on an identifier has neither an underscore nor the placeholder's second
letter. -/
theorem ne_of_mem_symbols {c : Char} (h : c ∈ '1' :: i.symbols.map Bech32.Symbol.char) :
    c ≠ '_' ∧ c ≠ 'i' := by
  rcases List.mem_cons.1 h with rfl | h
  · decide
  · obtain ⟨s, -, rfl⟩ := List.mem_map.1 h
    exact symbol_char_ne s

theorem ending_whole : ∀ ending ∈ placeholder.toList.tails, ending ≠ [] →
    Text.Meets ending placeholder.toList → ending = placeholder.toList := by
  decide +kernel

theorem ending_apart : ∀ ending ∈ placeholder.toList.tails, ending ≠ [] →
    ¬ Text.Meets ending lead := by
  decide +kernel

/-- Placeholders neither overlap one another nor an identifier that begins behind their
beginning. -/
theorem separate_placeholder (h : i.kind = .external) :
    Text.Separate placeholder.toList i.text.toList where
  nonempty := placeholder_ne_nil
  whole ending hending := ending_whole ending ((List.mem_tails _ _).2 hending)
  apart ending hending hne hmeets := by
    rw [toList_external h] at hmeets
    exact ending_apart ending ((List.mem_tails _ _).2 hending) hne hmeets.of_append
  absent hinfix := by
    have hmem : '_' ∈ placeholder.toList := by
      rw [toList_placeholder]
      simp
    have hlead : '_' ∉ lead := by decide +kernel
    have hfound := hinfix.subset hmem
    rw [toList_external h, List.mem_append] at hfound
    exact (ne_of_mem_symbols (hfound.resolve_left hlead)).1 rfl

theorem one_not_mem_placeholder : '1' ∉ placeholder.toList := by
  rw [toList_placeholder]
  decide

/-- Only the last letter of an identifier can begin a placeholder. -/
theorem completedBy_iff (h : i.kind = .external) :
    Text.CompletedBy placeholder.toList i.text.toList ending ↔
      i.text.toList.getLast? = some 'd' ∧ ending = placeholder.toList.tail := by
  constructor
  · rintro ⟨first, hne, heq, hfirst⟩
    have hbehind : first <:+ '1' :: i.symbols.map Bech32.Symbol.char := by
      have hsymbols : '1' :: i.symbols.map Bech32.Symbol.char <:+ i.text.toList := by
        rw [toList_external h]
        exact List.suffix_append _ _
      refine (List.suffix_or_suffix_of_suffix hfirst hsymbols).resolve_right fun hlonger => ?_
      refine one_not_mem_placeholder ?_
      rw [heq]
      exact List.mem_append_left _ (hlonger.subset List.mem_cons_self)
    have hletters := toList_placeholder
    rw [heq] at hletters
    cases first with
    | nil => exact absurd rfl hne
    | cons c more =>
        obtain ⟨rfl, hsecond⟩ := List.cons.inj hletters
        cases more with
        | nil =>
            obtain ⟨before, hbefore⟩ := hfirst
            rw [← hbefore, heq]
            exact ⟨List.getLast?_concat, rfl⟩
        | cons e more =>
            obtain ⟨rfl, -⟩ := List.cons.inj hsecond
            exact absurd rfl (ne_of_mem_symbols (hbehind.subset (.tail _ (.head _)))).2
  · rintro ⟨hlast, hending⟩
    obtain ⟨before, hbefore⟩ := List.getLast?_eq_some_iff.1 hlast
    refine ⟨['d'], List.cons_ne_nil _ _, ?_, ⟨before, hbefore.symm⟩⟩
    rw [hending, toList_placeholder]
    rfl

/-- When the placeholder is left in a value. -/
theorem holds_replaced_iff (h : i.kind = .external) (s : String) :
    Holds (String.ofList (Text.replaceAll placeholder.toList i.text.toList s.toList)) ↔
      i.text.toList.getLast? = some 'd' ∧ HoldsMore s := by
  rw [Holds, String.toList_ofList, (separate_placeholder h).infix_replaceAll_iff, HoldsMore]
  simp only [completedBy_iff h]
  constructor
  · rintro ⟨ending, ⟨hlast, hending⟩, hmore⟩
    exact ⟨hlast, hending ▸ hmore⟩
  · rintro ⟨hlast, hmore⟩
    exact ⟨_, ⟨hlast, rfl⟩, hmore⟩

/-! ## Genesis documents -/

/-- The ways in which a supplied value becomes the genesis document of an identifier. -/
inductive Becomes (value : Json) (did : String) (d : Document) : Prop
  | created (network : Network) (version : Nat)
      (h : createExternal value network version = .ok (did, d))
  | supplied (i : Identifier) (encoded : i.encode = .ok did)
      (h : ofExternal i (some value) = .ok d)

variable {value : Json} {d : Document} {name : String}

theorem Becomes.exists_external (h : Becomes value name d) :
    ∃ i : Identifier, i.kind = .external ∧ i.text = name ∧ d.value = fill name.toList value := by
  have hsupplied : ∃ i : Identifier, i.text = name ∧ ofExternal i (some value) = .ok d := by
    cases h with
    | created network version h =>
        obtain ⟨i, -, -, htext, hdocument⟩ := createExternal_eq_ok h
        exact ⟨i, htext, hdocument⟩
    | supplied i encoded h => exact ⟨i, (Identifier.encode_eq_ok_iff.1 encoded).1, h⟩
  obtain ⟨i, rfl, hdocument⟩ := hsupplied
  obtain ⟨found, hfound, hhash, hvalue⟩ := ofExternal_eq_ok hdocument
  cases hfound
  exact ⟨i, Identifier.kind_of_genesisHash? hhash, rfl, hvalue⟩

/-- A genesis document differs from the supplied value only where the placeholder stood. The
placeholder is in no string of it, unless it is in the name of a member, or the identifier ends with
the placeholder's first letter and some value goes on with the other ones. -/
theorem becomes_filled (h : Becomes value name d) :
    Filled name.toList value d.value ∧
    ((∀ s ∈ d.value.strings, ¬ Holds s.2) ↔
      (∀ s, (.name, s) ∈ value.strings → ¬ Holds s) ∧
      (name.toList.getLast? = some 'd' → ∀ s, (.value, s) ∈ value.strings → ¬ HoldsMore s)) := by
  obtain ⟨i, hkind, rfl, hvalue⟩ := h.exists_external
  rw [hvalue, strings_fill]
  refine ⟨filled_fill _ _, fun hnone => ⟨fun s hs => ?_, fun hlast s hs hmore => ?_⟩, ?_⟩
  · exact hnone _ (List.mem_map_of_mem hs)
  · exact hnone _ (List.mem_map_of_mem hs) ((holds_replaced_iff hkind s).2 ⟨hlast, hmore⟩)
  · rintro ⟨hnames, hvalues⟩ t ht hholds
    obtain ⟨⟨role, s⟩, hs, rfl⟩ := List.mem_map.1 ht
    cases role with
    | name => exact hnames s hs hholds
    | value =>
        obtain ⟨hlast, hmore⟩ := (holds_replaced_iff hkind s).1 hholds
        exact hvalues hlast s hs hmore

end Genesis

namespace Sample

/-- A document that speaks of itself inside a longer text, with one underscore more. -/
def selfReferring : Json :=
  Json.ofMembers [("id", .string Genesis.placeholder),
    ("alsoKnownAs", .array [.string ("see " ++ Genesis.placeholder ++ "_")])]

/-- A document with a member of its own name. -/
def selfKeyed : Json :=
  Json.ofMembers [("id", .string Genesis.placeholder), (Genesis.placeholder, .null)]

/-- A document with the placeholder and all of a second one but its first letter. The number is one
for which the identifier ends with that letter. -/
def selfCompleting : Json :=
  Json.ofMembers [("id", .string Genesis.placeholder), ("nonce", .int 26),
    ("alsoKnownAs", .array [.string (Genesis.placeholder ++
      String.ofList Genesis.placeholder.toList.tail)])]

end Sample

namespace Genesis

/-- No placeholder is left of a document that speaks of itself in values only. -/
theorem becomes_filled_sample :
    ∃ name d, createExternal Sample.selfReferring .regtest 1 = .ok (name, d) ∧
      Filled name.toList Sample.selfReferring d.value ∧ ∀ s ∈ d.value.strings, ¬ Holds s.2 := by
  have hsome : (createExternal Sample.selfReferring .regtest 1).toOption.isSome := by
    decide +kernel
  obtain ⟨⟨name, d⟩, hfound⟩ := Option.isSome_iff_exists.1 hsome
  have hcreate := eq_ok_of_toOption hfound
  obtain ⟨hfilled, hholds⟩ := becomes_filled (.created _ _ hcreate)
  have hnames : ∀ s ∈ Sample.selfReferring.strings, s.1 = .name → ¬ Holds s.2 := by
    decide +kernel
  have hvalues : ∀ s ∈ Sample.selfReferring.strings, s.1 = .value → ¬ HoldsMore s.2 := by
    decide +kernel
  exact ⟨name, d, hcreate, hfilled, hholds.2
    ⟨fun s hs => hnames _ hs rfl, fun _ s hs => hvalues _ hs rfl⟩⟩

/-- The placeholder is left as the name of a member, and is made anew by an identifier. -/
theorem placeholder_survives :
    (∃ name d, createExternal Sample.selfKeyed .regtest 1 = .ok (name, d) ∧
      ∃ s, (.name, s) ∈ d.value.strings ∧ Holds s) ∧
    ∃ name d, createExternal Sample.selfCompleting .regtest 1 = .ok (name, d) ∧
      ∃ s, (.value, s) ∈ d.value.strings ∧ Holds s := by
  have hleft : ∀ value role, ((createExternal value .regtest 1).toOption.any fun created =>
      created.2.value.strings.any fun s => s.1 = role ∧ Holds s.2) = true →
      ∃ name d, createExternal value .regtest 1 = .ok (name, d) ∧
        ∃ s, (role, s) ∈ d.value.strings ∧ Holds s := by
    intro value role h
    cases hfound : (createExternal value .regtest 1).toOption with
    | none => simp [hfound] at h
    | some created =>
        rw [hfound, Option.any_some, List.any_eq_true] at h
        obtain ⟨⟨_, s⟩, hs, hboth⟩ := h
        obtain ⟨rfl, hholds⟩ := of_decide_eq_true hboth
        exact ⟨created.1, created.2, eq_ok_of_toOption hfound, s, hs, hholds⟩
  exact ⟨hleft _ .name (by decide +kernel), hleft _ .value (by decide +kernel)⟩

end Genesis

end AnchoredDid
