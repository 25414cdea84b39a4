import Mathlib.Algebra.Group.Int.Defs
import AnchoredDid.Proofs.Bytes.Hex
import AnchoredDid.Proofs.Json.Integers

/-!
# Canonical text is read as the value

A value whose numbers are integers that fit is read back from its canonical text, whatever follows
the text (`Json.readValue_canonicalText`). The members of an object are read in the order of their
written names; putting them under their names restores the order of the value.
-/

namespace AnchoredDid

namespace Members

variable {α : Type} {name : String} {value : α} {pairs : List (String × α)}

theorem last?_eq_none_iff : last? name pairs = none ↔ ∀ p ∈ pairs, p.1 ≠ name := by
  induction pairs with
  | nil => exact iff_of_true rfl nofun
  | cons p rest ih =>
      rw [last?_cons, Option.or_eq_none_iff, ih, List.forall_mem_cons, and_comm]
      by_cases hname : p.1 = name <;> simp [hname]

theorem mem_of_last? (h : last? name pairs = some value) : (name, value) ∈ pairs := by
  induction pairs with
  | nil => cases h
  | cons p rest ih =>
      rw [last?_cons, Option.or_eq_some_iff] at h
      rcases h with hlater | ⟨-, hfirst⟩
      · exact List.mem_cons_of_mem _ (ih hlater)
      · split at hfirst
        · next hname =>
          cases hfirst
          exact hname ▸ List.mem_cons_self
        · cases hfirst

/-- The order in which members are listed is of no account. -/
theorem ofList_eq_of_perm {members : Members α} (sorted : members.Sorted)
    (h : pairs.Perm members) : ofList pairs = members := by
  refine Sorted.ext (sorted_ofList pairs) sorted fun name => ?_
  rw [find?_ofList]
  cases hlast : last? name pairs with
  | none =>
      refine (find?_eq_none_iff.2 fun m hm => ?_).symm
      exact last?_eq_none_iff.1 hlast m (h.mem_iff.2 hm)
  | some value => exact (find?_of_mem sorted (h.mem_iff.1 (mem_of_last? hlast))).symm

end Members

namespace Json

/-! ## How deep containers nest -/

mutual

/-- The greatest number of containers inside one another. -/
def nesting : Json → Nat
  | array items => nestingItems items + 1
  | object members => nestingMembers members + 1
  | _ => 0

def nestingItems : List Json → Nat
  | [] => 0
  | item :: rest => max (nesting item) (nestingItems rest)

def nestingMembers : List (String × Json) → Nat
  | [] => 0
  | (_, value) :: rest => max (nesting value) (nestingMembers rest)

end

theorem nesting_le_items {items : List Json} {x : Json} (h : x ∈ items) :
    x.nesting ≤ nestingItems items := by
  induction items with
  | nil => cases h
  | cons item rest ih =>
      rw [nestingItems]
      rcases List.mem_cons.1 h with rfl | h
      · exact Nat.le_max_left _ _
      · exact Nat.le_trans (ih h) (Nat.le_max_right _ _)

theorem nesting_le_members {members : List (String × Json)} {m : String × Json} (h : m ∈ members) :
    m.2.nesting ≤ nestingMembers members := by
  induction members with
  | nil => cases h
  | cons first rest ih =>
      obtain ⟨name, value⟩ := first
      rw [nestingMembers]
      rcases List.mem_cons.1 h with rfl | h
      · exact Nat.le_max_left _ _
      · exact Nat.le_trans (ih h) (Nat.le_max_right _ _)

/-! ## What follows a value -/

/-- The text is at its end, or a container or one of its elements is. -/
def Ends (rest : List Char) : Prop :=
  ∀ c ∈ rest.head?, c ∈ [',', ']', '\x7d']

theorem ends_cons {c : Char} {rest : List Char} (h : c ∈ [',', ']', '\x7d']) :
    Ends (c :: rest) := by
  intro d hd
  rw [List.head?_cons, Option.mem_some_iff] at hd
  exact hd ▸ h

/-- No character of which `p` holds comes next, if it holds of none that ends something. -/
theorem Ends.head_not {rest : List Char} (h : Ends rest) {p : Char → Bool}
    (hp : [',', ']', '\x7d'].all (fun c => !p c) = true) : ∀ c ∈ rest.head?, p c = false := by
  intro c hc
  simpa using List.all_eq_true.1 hp c (h c hc)

theorem ends_closing {close : Char} {rest : List Char} (h : close ∈ [',', ']', '\x7d'])
    (pieces : List (List Char)) : Ends (closing close rest pieces) := by
  cases pieces with
  | nil => exact ends_cons h
  | cons piece more => exact ends_cons (by decide)

theorem skipBlanks_cons {c : Char} (h : isBlank c = false) (rest : List Char) :
    skipBlanks (c :: rest) = c :: rest :=
  List.dropWhile_cons_of_neg (by simp [h])

/-! ## Numbers -/

section Numbers

variable {rest : List Char} {negative : Bool}

theorem takeWhile_isDigit (n : Nat) (hrest : Ends rest) :
    (Nat.toDigits 10 n ++ rest).takeWhile Char.isDigit = Nat.toDigits 10 n ∧
      (Nat.toDigits 10 n ++ rest).dropWhile Char.isDigit = rest := by
  have hdigits : ∀ c ∈ Nat.toDigits 10 n, c.isDigit = true := fun c => Digits.isDigit_of_mem
  rw [List.takeWhile_append_of_pos hdigits, List.dropWhile_append_of_pos hdigits]
  cases rest with
  | nil => simp
  | cons c rest =>
      have hc : c.isDigit = false := hrest.head_not (by decide) c rfl
      simp [hc]

theorem readFraction_of_ends (hrest : Ends rest) : readFraction rest = some ([], rest) := by
  rw [readFraction]
  rintro later rfl
  exact absurd (hrest '.' rfl) (by decide)

theorem readExponent_of_ends (hrest : Ends rest) : readExponent rest = some (none, rest) := by
  cases rest with
  | nil => rfl
  | cons c rest =>
      have hc : (c = 'e' || c = 'E') = false :=
        hrest.head_not (p := fun c => c = 'e' || c = 'E') (by decide) c rfl
      simp [readExponent, hc]

/-- The digits of a number are read as that number. -/
theorem readMagnitude_toDigits (negative : Bool) (n : Nat) (hrest : Ends rest) :
    readMagnitude negative (Nat.toDigits 10 n ++ rest) =
      (ofInteger? negative n).map fun value => (value, rest) := by
  obtain ⟨htake, hdrop⟩ := takeWhile_isDigit n hrest
  have hvalue : digitsToNat (Nat.toDigits 10 n) = n := Nat.ofDigitChars_ten_toDigits
  have hzero :
      ((Nat.toDigits 10 n).head? = some '0' && (Nat.toDigits 10 n).length > 1) = false := by
    rcases Nat.eq_zero_or_pos n with rfl | hn
    · rw [Nat.toDigits_zero]
      rfl
    · simp [Digits.head?_toDigits hn]
  simp only [readMagnitude, htake, hdrop, hzero, readFraction_of_ends hrest,
    readExponent_of_ends hrest, hvalue, Option.bind_eq_bind, Option.bind_some]
  cases ofInteger? negative n <;> simp

end Numbers

/-- Whether an integer stays one when its text is read. -/
def Fits (n : Int) : Prop :=
  -2 ^ 63 ≤ n ∧ n < 2 ^ 64

section Values

variable {fuel depth : Nat} {rest : List Char}

theorem readValue_digit {c : Char} (h : c.isDigit = true) :
    readValue fuel depth (c :: rest) = readMagnitude false (c :: rest) := by
  have hblank : isBlank c = false := by
    rw [isBlank]
    simp only [Bool.or_eq_false_iff, decide_eq_false_iff_not]
    refine ⟨⟨⟨?_, ?_⟩, ?_⟩, ?_⟩ <;> rintro rfl <;> cases h
  rw [readValue, skipBlanks_cons hblank]
  split
  case h_8 => rfl
  all_goals
    next heq =>
      cases heq
      cases h

theorem readValue_minus : readValue fuel depth ('-' :: rest) = readMagnitude true rest := by
  rw [readValue, skipBlanks_cons rfl]
  rfl

/-- An integer that fits is read as itself. -/
theorem readValue_integerText {n : Int} (h : Fits n) (hrest : Ends rest) :
    readValue fuel depth (integerText n ++ rest) = some (.int n, rest) := by
  rcases Int.lt_or_le n 0 with hn | hn
  · have hread : ofInteger? true n.natAbs = some (.int n) := by
      have hsize : 0 < n.natAbs ∧ n.natAbs ≤ Nat.pow 2 63 := by
        obtain ⟨hlow, -⟩ := h
        change 0 < n.natAbs ∧ n.natAbs ≤ 2 ^ 63
        omega
      have habs : -(n.natAbs : Int) = n := by omega
      rw [ofInteger?, if_pos rfl, if_pos hsize, habs]
    rw [integerText_of_neg hn, List.cons_append, readValue_minus, readMagnitude_toDigits _ _ hrest,
      hread]
    rfl
  · have hread : ofInteger? false n.natAbs = some (.int n) := by
      have hsize : n.natAbs < Nat.pow 2 64 := by
        obtain ⟨-, hhigh⟩ := h
        change n.natAbs < 2 ^ 64
        omega
      rw [ofInteger?, if_neg Bool.false_ne_true, if_pos hsize, Int.natAbs_of_nonneg hn]
    obtain ⟨c, digits, hdigits⟩ := List.exists_cons_of_ne_nil
      (Nat.toDigits_ne_nil (b := 10) (n := n.natAbs))
    have hc : c.isDigit = true := Digits.isDigit_of_mem (hdigits ▸ List.mem_cons_self)
    have hmagnitude := readMagnitude_toDigits false n.natAbs hrest
    rw [hdigits, hread] at hmagnitude
    rw [integerText_of_nonneg hn, hdigits, List.cons_append, readValue_digit hc]
    exact hmagnitude

/-! ## Containers -/

variable {item : List Char → Option (Json × List Char)}

/-- Elements are read one by one, if each is read whatever ends it. -/
theorem readElements_closing (rest : List Char) {first : Json} {others : List Json}
    (hitem : ∀ x ∈ first :: others, ∀ rest, Ends rest →
      item (x.canonicalText ++ rest) = some (x, rest)) (hfuel : others.length < fuel) :
    readElements item fuel (first.canonicalText ++ closing ']' rest (others.map canonicalText)) =
      some (first :: others, rest) := by
  induction others generalizing first fuel with
  | nil =>
      cases fuel with
      | zero => cases hfuel
      | succ fuel =>
          have hfirst := hitem first List.mem_cons_self (closing ']' rest [])
            (ends_closing (by decide) [])
          simp only [List.map_nil, readElements, hfirst, Option.bind_eq_bind, Option.bind_some]
          rfl
  | cons next others ih =>
      cases fuel with
      | zero => cases hfuel
      | succ fuel =>
          have hfirst := hitem first List.mem_cons_self
            (closing ']' rest ((next :: others).map canonicalText)) (ends_closing (by decide) _)
          have hothers := ih (fun x hx => hitem x (List.mem_cons_of_mem _ hx))
            (Nat.lt_of_succ_lt_succ hfuel)
          simp only [readElements, hfirst, Option.bind_eq_bind, Option.bind_some]
          simp only [List.map_cons, closing, skipBlanks_cons (c := ',') rfl, hothers,
            Option.bind_some]

/-- Members are read in the order in which they are written. -/
theorem readPairs_closing (rest : List Char) {first : String × Json} {others : List (String × Json)}
    (hitem : ∀ m ∈ first :: others, ∀ rest, Ends rest →
      item (m.2.canonicalText ++ rest) = some (m.2, rest)) (hfuel : others.length < fuel) :
    readPairs item fuel (colonJoined (written first) ++
        closing '\x7d' rest (others.map fun m => colonJoined (written m))) =
      some (first :: others, rest) := by
  have hname : ∀ (m : String × Json) (later : List Char),
      skipBlanks (colonJoined (written m) ++ later) =
        '"' :: (m.1.toList.flatMap escapeChar ++ '"' :: ':' :: (m.2.canonicalText ++ later)) := by
    intro m later
    simp only [colonJoined, written, quote, List.cons_append, List.append_assoc, List.nil_append]
    exact skipBlanks_cons rfl _
  have hcolon : ∀ later, skipBlanks (':' :: later) = ':' :: later := fun later =>
    skipBlanks_cons rfl later
  induction others generalizing first fuel with
  | nil =>
      cases fuel with
      | zero => cases hfuel
      | succ fuel =>
          have hfirst := hitem first List.mem_cons_self (closing '\x7d' rest [])
            (ends_closing (by decide) [])
          simp only [List.map_nil, readPairs, hname, readChars_flatMap_escapeChar, hcolon, hfirst,
            Option.bind_eq_bind, Option.bind_some, String.ofList_toList]
          rfl
  | cons next others ih =>
      cases fuel with
      | zero => cases hfuel
      | succ fuel =>
          have hfirst := hitem first List.mem_cons_self
            (closing '\x7d' rest ((next :: others).map fun m => colonJoined (written m)))
            (ends_closing (by decide) _)
          have hothers := ih (fun m hm => hitem m (List.mem_cons_of_mem _ hm))
            (Nat.lt_of_succ_lt_succ hfuel)
          simp only [readPairs, hname, readChars_flatMap_escapeChar, hcolon, hfirst,
            Option.bind_eq_bind, Option.bind_some, String.ofList_toList]
          simp only [List.map_cons, closing, skipBlanks_cons (c := ',') rfl, hothers,
            Option.bind_some]

/-- The text of a container is not shorter than that of anything in it, and it takes at least one
character for each. -/
theorem length_commaSeparated (pieces : List (List Char)) (hne : ∀ p ∈ pieces, p ≠ []) :
    pieces.length ≤ (commaSeparated pieces).length ∧
      ∀ p ∈ pieces, p.length ≤ (commaSeparated pieces).length := by
  induction pieces with
  | nil => exact ⟨Nat.le_refl _, nofun⟩
  | cons piece pieces ih =>
      obtain ⟨hpiece, hrest⟩ := List.forall_mem_cons.1 hne
      have hpositive := List.length_pos_iff.2 hpiece
      obtain ⟨hcount, heach⟩ := ih hrest
      cases pieces with
      | nil => exact ⟨hpositive, List.forall_mem_singleton.2 (Nat.le_refl _)⟩
      | cons next pieces =>
          have hlength : (commaSeparated (piece :: next :: pieces)).length =
              piece.length + 1 + (commaSeparated (next :: pieces)).length := by
            simp only [commaSeparated, List.length_append, List.length_cons]
            omega
          rw [hlength]
          refine ⟨?_, List.forall_mem_cons.2 ⟨by omega, fun p hp => ?_⟩⟩
          · rw [List.length_cons]
            omega
          · have hp := heach p hp
            omega

theorem canonicalText_ne_nil (x : Json) : x.canonicalText ≠ [] := by
  obtain ⟨c, more, hx, -⟩ := (spells_canonicalText x).exists_kindAt
  rw [hx]
  exact List.cons_ne_nil c more

/-! ## Values -/

theorem readValue_quote (s : String) :
    readValue fuel depth (quote s ++ rest) = some (.string s, rest) := by
  have hquote : quote s ++ rest = '"' :: (s.toList.flatMap escapeChar ++ '"' :: rest) := by
    simp [quote]
  rw [readValue, hquote, skipBlanks_cons rfl]
  simp only [readChars_flatMap_escapeChar, Option.bind_eq_bind, Option.bind_some,
    String.ofList_toList]

/-- An array is read by its elements, unless it ends at once. -/
theorem readValue_bracket {c : Char} (hblank : isBlank c = false) (hclose : c ≠ ']') :
    readValue fuel (depth + 1) ('[' :: c :: rest) =
      (readElements (readValue fuel depth) fuel (c :: rest)).map fun (items, rest) =>
        (.array items, rest) := by
  rw [readValue, skipBlanks_cons rfl]
  simp only [skipBlanks_cons hblank]
  split
  · next heq => exact absurd (List.cons.inj heq).1 hclose
  · cases readElements (readValue fuel depth) fuel (c :: rest) <;> rfl

theorem readValue_brace {c : Char} (hblank : isBlank c = false) (hclose : c ≠ '\x7d') :
    readValue fuel (depth + 1) ('\x7b' :: c :: rest) =
      (readPairs (readValue fuel depth) fuel (c :: rest)).map fun (pairs, rest) =>
        (ofMembers pairs, rest) := by
  rw [readValue, skipBlanks_cons rfl]
  simp only [skipBlanks_cons hblank]
  split
  · next heq => exact absurd (List.cons.inj heq).1 hclose
  · cases readPairs (readValue fuel depth) fuel (c :: rest) <;> rfl

/-- A value's text begins neither with a blank nor with the end of an array. -/
theorem exists_head_canonicalText (x : Json) :
    ∃ c more, x.canonicalText = c :: more ∧ isBlank c = false ∧ c ≠ ']' := by
  obtain ⟨c, more, hx⟩ := List.exists_cons_of_ne_nil (canonicalText_ne_nil x)
  have hother : ∀ {d : Char}, isNumeral d = false → kindAt d = .number → c ≠ d := by
    intro d hnumeral hkind
    obtain ⟨c', more', hx', hne⟩ := opens_canonicalText hnumeral hkind x
    rw [hx] at hx'
    cases hx'
    exact hne
  refine ⟨c, more, hx, ?_, hother rfl rfl⟩
  simp only [isBlank, Bool.or_eq_false_iff, decide_eq_false_iff_not]
  exact ⟨⟨⟨hother rfl rfl, hother rfl rfl⟩, hother rfl rfl⟩, hother rfl rfl⟩

/-- An array is read if each of its elements is, at one depth less. -/
theorem readValue_array {items : List Json}
    (hitem : ∀ x ∈ items, ∀ rest, Ends rest →
      readValue fuel depth (x.canonicalText ++ rest) = some (x, rest))
    (hfuel : (canonicalText (.array items)).length ≤ fuel) :
    readValue fuel (depth + 1) (canonicalText (.array items) ++ rest) =
      some (.array items, rest) := by
  cases items with
  | nil =>
      rw [readValue]
      rfl
  | cons first others =>
      have hcount := (length_commaSeparated ((first :: others).map canonicalText)
        (List.forall_mem_map.2 fun x _ => canonicalText_ne_nil x)).1
      rw [canonicalText_array, List.length_append, List.length_cons] at hfuel
      rw [List.length_map, List.length_cons] at hcount
      have hothers : others.length < fuel := by omega
      have hread := readElements_closing rest hitem hothers
      have htext : canonicalText (.array (first :: others)) ++ rest =
          '[' :: (first.canonicalText ++ closing ']' rest (others.map canonicalText)) := by
        rw [canonicalText_array, List.cons_append, List.cons_append, List.append_assoc,
          List.map_cons]
        exact congrArg ('[' :: ·) (commaSeparated_cons_append _)
      obtain ⟨c, more, hfirst, hblank, hclose⟩ := exists_head_canonicalText first
      rw [hfirst, List.cons_append] at hread htext
      rw [htext, readValue_bracket hblank hclose, hread]
      rfl

/-- An object is read if each of its values is, at one depth less. -/
theorem readValue_object {members : List (String × Json)} (sorted : Members.Sorted members)
    (hitem : ∀ m ∈ members, ∀ rest, Ends rest →
      readValue fuel depth (m.2.canonicalText ++ rest) = some (m.2, rest))
    (hfuel : (canonicalText (.object members)).length ≤ fuel) :
    readValue fuel (depth + 1) (canonicalText (.object members) ++ rest) =
      some (.object members, rest) := by
  obtain ⟨listed, hperm, hwritten⟩ := exists_listed members
  have hpieces : (canonicalMembers members).map colonJoined =
      listed.map fun m => colonJoined (written m) := by
    rw [hwritten, List.map_map]
    rfl
  rw [canonicalText_object, hpieces] at hfuel ⊢
  cases listed with
  | nil =>
      obtain rfl := hperm.symm.eq_nil
      rw [readValue]
      rfl
  | cons first others =>
      have hcount := (length_commaSeparated
        ((first :: others).map fun m => colonJoined (written m))
        (List.forall_mem_map.2 fun m _ => List.cons_ne_nil _ _)).1
      rw [List.length_append, List.length_cons] at hfuel
      rw [List.length_map, List.length_cons] at hcount
      have hothers : others.length < fuel := by omega
      have hread := readPairs_closing rest
        (fun m hm => hitem m (hperm.mem_iff.1 hm)) hothers
      rw [List.cons_append, List.cons_append, List.append_assoc, List.map_cons]
      rw [List.singleton_append, commaSeparated_cons_append]
      have hquote : colonJoined (written first) = '"' :: (colonJoined (written first)).tail := rfl
      rw [hquote, List.cons_append] at hread ⊢
      have hall : ofMembers (first :: others) = .object members :=
        congrArg object (Members.ofList_eq_of_perm sorted hperm)
      rw [readValue_brace rfl (by decide), hread]
      exact congrArg (fun value => some (value, rest)) hall

theorem length_le_array {items : List Json} {x : Json} (h : x ∈ items) :
    x.canonicalText.length ≤ (canonicalText (.array items)).length := by
  have hpiece := (length_commaSeparated (items.map canonicalText)
    (List.forall_mem_map.2 fun x _ => canonicalText_ne_nil x)).2 _ (List.mem_map_of_mem h)
  rw [canonicalText_array, List.length_append, List.length_cons]
  omega

theorem length_le_object {members : List (String × Json)} {m : String × Json} (h : m ∈ members) :
    m.2.canonicalText.length ≤ (canonicalText (.object members)).length := by
  have hmem : written m ∈ canonicalMembers members :=
    (canonicalMembers_perm members).mem_iff.2 (List.mem_map_of_mem h)
  have hpiece := (length_commaSeparated ((canonicalMembers members).map colonJoined)
    (List.forall_mem_map.2 fun p _ => by simp [colonJoined])).2 _ (List.mem_map_of_mem hmem)
  have hlength : (colonJoined (written m)).length =
      (quote m.1).length + m.2.canonicalText.length + 1 := by
    simp [colonJoined, written, Nat.add_assoc]
  rw [canonicalText_object, List.length_append, List.length_cons]
  omega

/-- A value is read back from its text, with what follows left over. -/
theorem readValue_canonicalText {value : Json} (integers : value.Integers Fits)
    (ordered : value.Ordered) (hfuel : value.canonicalText.length ≤ fuel)
    (hdepth : value.nesting ≤ depth) (hrest : Ends rest) :
    readValue fuel depth (value.canonicalText ++ rest) = some (value, rest) := by
  induction value using induction generalizing depth rest with
  | null =>
      rw [readValue]
      rfl
  | bool b =>
      rw [readValue]
      cases b <;> rfl
  | int n =>
      cases integers with
      | int holds => exact readValue_integerText holds hrest
  | double x => cases integers
  | string s => exact readValue_quote s
  | array items ih =>
      rw [nesting] at hdepth
      obtain ⟨depth, rfl⟩ := Nat.exists_eq_add_of_le' (Nat.le_of_add_left_le hdepth)
      refine readValue_array (fun x hx rest hrest => ?_) hfuel
      exact ih x hx (integers.of_mem_array x hx) (ordered.of_mem_array x hx)
        (Nat.le_trans (length_le_array hx) hfuel)
        (Nat.le_trans (nesting_le_items hx) (Nat.le_of_succ_le_succ hdepth)) hrest
  | object members ih =>
      rw [nesting] at hdepth
      obtain ⟨depth, rfl⟩ := Nat.exists_eq_add_of_le' (Nat.le_of_add_left_le hdepth)
      refine readValue_object ordered.sorted (fun m hm rest hrest => ?_) hfuel
      exact ih m hm (integers.of_mem_object m hm) (ordered.of_mem_object m hm)
        (Nat.le_trans (length_le_object hm) hfuel)
        (Nat.le_trans (nesting_le_members hm) (Nat.le_of_succ_le_succ hdepth)) hrest

end Values

/-- The canonical text of a value whose numbers are integers that fit, and whose containers nest no
deeper than is read, is read as the value. So two such values have the same text only if they are
equal, and the same hash only if their texts are two messages of the same SHA-256 hash. -/
theorem canonical_faithful {v w : Json} (vOrdered : v.Ordered) (wOrdered : w.Ordered)
    (vIntegers : v.Integers Fits) (wIntegers : w.Integers Fits) (vNesting : v.nesting ≤ 127)
    (wNesting : w.nesting ≤ 127) :
    read? v.canonical = some v ∧ (v.canonical = w.canonical ↔ v = w) ∧
      (v.hash = w.hash → v = w ∨
        (Bytes.ofText v.canonical ≠ Bytes.ofText w.canonical ∧
          sha256 (Bytes.ofText v.canonical) = sha256 (Bytes.ofText w.canonical))) := by
  have hread : ∀ {x : Json}, x.Ordered → x.Integers Fits → x.nesting ≤ 127 →
      read? x.canonical = some x := by
    intro x ordered integers nesting
    have hvalue : readValue x.canonicalText.length depthLimit (x.canonicalText ++ []) =
        some (x, []) :=
      readValue_canonicalText integers ordered (Nat.le_refl _) nesting nofun
    have htext : x.canonical.toList = x.canonicalText := String.toList_ofList
    rw [List.append_nil] at hvalue
    simp only [read?, htext, hvalue, Option.bind_eq_bind, Option.bind_some]
    exact if_pos rfl
  have hsame : v.canonical = w.canonical ↔ v = w := by
    refine ⟨fun h => ?_, fun h => h ▸ rfl⟩
    have hv := hread vOrdered vIntegers vNesting
    rw [h, hread wOrdered wIntegers wNesting] at hv
    exact (Option.some.inj hv).symm
  refine ⟨hread vOrdered vIntegers vNesting, hsame, fun hhash => ?_⟩
  by_cases hequal : v = w
  · exact .inl hequal
  · exact .inr ⟨fun htext => hequal (hsame.1 (Bytes.ofText_injective htext)), hhash⟩

end Json

namespace Sample

/-- The least and the greatest integer under names that begin alike, one of which is escaped. -/
def extremes : Json :=
  Json.ofMembers [("a\"", .array [.int (-2 ^ 63), .null, .object []]), ("a", .int (2 ^ 64 - 1))]

theorem ordered_extremes : extremes.Ordered := by
  have hempty : Json.Ordered (.object []) := .object .nil (List.forall_mem_nil _)
  have hitems : ∀ x ∈ [Json.int (-2 ^ 63), .null, .object []], x.Ordered :=
    List.forall_mem_cons.2 ⟨.int _, List.forall_mem_cons.2
      ⟨.null, List.forall_mem_singleton.2 hempty⟩⟩
  refine Json.ordered_ofMembers (List.forall_mem_cons.2 ⟨.array hitems, ?_⟩)
  exact List.forall_mem_singleton.2 (.int _)

theorem integers_extremes : extremes.Integers Json.Fits := by
  have hempty : (Json.object []).Integers Json.Fits := .object (List.forall_mem_nil _)
  have hitems : ∀ x ∈ [Json.int (-2 ^ 63), .null, .object []], x.Integers Json.Fits :=
    List.forall_mem_cons.2 ⟨.int ⟨by decide, by decide⟩, List.forall_mem_cons.2
      ⟨.null, List.forall_mem_singleton.2 hempty⟩⟩
  have hmembers : ∀ m ∈ [("a\"", Json.array [.int (-2 ^ 63), .null, .object []]),
      ("a", .int (2 ^ 64 - 1))], m.2.Integers Json.Fits :=
    List.forall_mem_cons.2 ⟨.array hitems, List.forall_mem_singleton.2
      (.int ⟨by decide, by decide⟩)⟩
  exact .object fun m hm => hmembers m (Members.mem_of_mem_ofList hm)

end Sample

namespace Json

/-- The greatest and the least integer are read back, and the empty object is another value. -/
theorem canonical_faithful_sample : read? Sample.extremes.canonical = some Sample.extremes ∧
    Sample.extremes.canonical ≠ canonical (.object []) := by
  obtain ⟨hread, hsame, -⟩ := canonical_faithful Sample.ordered_extremes
    (.object .nil (List.forall_mem_nil _)) Sample.integers_extremes
    (.object (List.forall_mem_nil _)) (by decide) (by decide)
  exact ⟨hread, fun h => nomatch hsame.1 h⟩

end Json

end AnchoredDid
