import AnchoredDid.Json.Canonical
import AnchoredDid.Json.Reader

/-!
# Written strings and numbers

A string is read as it was written, whatever follows its closing quotation mark
(`Json.readChars_flatMap_escapeChar`), so no written string is the beginning of another one. A
number is written with few characters, none of which can follow a number in a text, so it ends where
these characters do (`Json.numeral_append_inj`).
-/

namespace AnchoredDid.Json

/-! ## Strings -/

/-- A character is written by a short escape, by the digits of a control, or as itself. -/
theorem escapeChar_cases (c : Char) :
    (∃ e, escapeChar c = ['\\', e] ∧ e ≠ 'u' ∧ escape? e = some c) ∨
    (escapeChar c = '\\' :: 'u' :: '0' :: '0' :: controlDigits c ∧ c.toNat < 0x20) ∨
    (escapeChar c = [c] ∧ c ≠ '"' ∧ c ≠ '\\' ∧ ¬ c.toNat < 0x20) := by
  have hshort : ∀ p ∈ [('"', '"'), ('\\', '\\'), ('\x08', 'b'), ('\x0c', 'f'), ('\n', 'n'),
      ('\r', 'r'), ('\t', 't')], escapeChar p.1 = ['\\', p.2] ∧ p.2 ≠ 'u' ∧
        escape? p.2 = some p.1 := by
    decide
  by_cases hmem : c ∈ ['"', '\\', '\x08', '\x0c', '\n', '\r', '\t']
  · obtain ⟨p, hp, rfl⟩ := List.mem_map.1 (show c ∈ [('"', '"'), ('\\', '\\'), ('\x08', 'b'),
      ('\x0c', 'f'), ('\n', 'n'), ('\r', 'r'), ('\t', 't')].map Prod.fst from hmem)
    exact .inl ⟨p.2, hshort p hp⟩
  · simp only [List.mem_cons, List.not_mem_nil, or_false, not_or] at hmem
    obtain ⟨hquote, hslash, hback, hfeed, hline, hreturn, htab⟩ := hmem
    by_cases hcontrol : c.toNat < 0x20
    · exact .inr (.inl ⟨by simp [escapeChar, *], hcontrol⟩)
    · exact .inr (.inr ⟨by simp [escapeChar, *], hquote, hslash, hcontrol⟩)

/-- The digits of a control are its code, which is no surrogate. -/
theorem unit?_controlDigits {c : Char} (h : c.toNat < 0x20) :
    unit? '0' '0' (Hex.digit (c.toNat / 16)) (Hex.digit (c.toNat % 16)) = some c.toNat ∧
      isTrail c.toNat = false ∧ isLead c.toNat = false := by
  have hsmall : ∀ n : Fin 32, unit? '0' '0' (Hex.digit (n / 16)) (Hex.digit (n % 16)) = some n.val ∧
      isTrail n = false ∧ isLead n = false := by decide
  exact hsmall ⟨c.toNat, h⟩

theorem readChars_escapeChar (c : Char) (text : List Char) :
    readChars (escapeChar c ++ text) =
      (readChars text).bind fun (chars, rest) => some (c :: chars, rest) := by
  obtain ⟨e, hwritten, hunit, hread⟩ | ⟨hwritten, hcontrol⟩
    | ⟨hwritten, hquote, hslash, hcontrol⟩ :=
    escapeChar_cases c
  · rw [hwritten]
    simp [readChars, hunit, hread]
  · obtain ⟨hread, htrail, hlead⟩ := unit?_controlDigits hcontrol
    rw [hwritten]
    simp [controlDigits, readChars, hread, htrail, hlead]
  · rw [hwritten]
    simp [readChars, hslash, hcontrol]

/-- A string is read up to the quotation mark that closes it. -/
theorem readChars_flatMap_escapeChar (chars rest : List Char) :
    readChars (chars.flatMap escapeChar ++ '"' :: rest) = some (chars, rest) := by
  induction chars with
  | nil => simp [readChars]
  | cons c chars ih =>
      rw [List.flatMap_cons, List.append_assoc, readChars_escapeChar, ih]
      rfl

/-- What follows a written string is known from the text. -/
theorem quote_append_inj {s t : String} {rest later : List Char}
    (h : quote s ++ rest = quote t ++ later) : s = t ∧ rest = later := by
  simp only [quote, List.cons_append, List.append_assoc, List.nil_append, List.cons.injEq,
    true_and] at h
  have hread := congrArg readChars h
  rw [readChars_flatMap_escapeChar, readChars_flatMap_escapeChar, Option.some.injEq,
    Prod.mk.injEq, String.toList_inj] at hread
  exact hread

/-! ## Numbers -/

/-- The characters that numbers are written with. -/
def isNumeral (c : Char) : Bool :=
  c.isDigit || c = '-' || c = '+' || c = '.' || c = 'e'

theorem isNumeral_of_mem_toDigits {n : Nat} {c : Char} (h : c ∈ Nat.toDigits 10 n) :
    isNumeral c = true := by
  rw [isNumeral, Nat.isDigit_of_mem_toDigits (by decide) (by decide) h]
  rfl

theorem isNumeral_integerText (n : Int) : ∀ c ∈ integerText n, isNumeral c = true := by
  rw [integerText]
  refine List.forall_mem_append.2 ⟨?_, fun c => isNumeral_of_mem_toDigits⟩
  intro c hc
  split at hc
  · rw [List.mem_singleton.1 hc]
    rfl
  · cases hc

theorem integerText_ne_nil (n : Int) : integerText n ≠ [] :=
  List.append_ne_nil_of_right_ne_nil _ Nat.toDigits_ne_nil

/-- The digits of a shortest decimal are digits of some number. -/
theorem isNumeral_shortest (significand : Nat) (exponent : Int) :
    ∀ c ∈ (Decimal.shortest significand exponent).digits, isNumeral c = true := by
  intro c hc
  have hwritten := (List.dropWhile_sublist _).subset (List.mem_reverse.1 hc)
  exact isNumeral_of_mem_toDigits (List.mem_reverse.1 hwritten)

section Styles

variable {style : NumberStyle} {d : Decimal}

theorem isNumeral_positional (h : ∀ c ∈ d.digits, isNumeral c = true) :
    ∀ c ∈ style.positional d, isNumeral c = true := by
  have hzeros : ∀ count, ∀ c ∈ List.replicate count '0', isNumeral c = true := by
    intro count c hc
    rw [List.eq_of_mem_replicate hc]
    rfl
  rw [NumberStyle.positional]
  split
  · exact List.forall_mem_append.2 ⟨List.forall_mem_cons.2 ⟨rfl, List.forall_mem_cons.2
      ⟨rfl, hzeros _⟩⟩, h⟩
  · split
    · exact List.forall_mem_append.2 ⟨fun c hc => h c (List.mem_of_mem_take hc),
        List.forall_mem_cons.2 ⟨rfl, fun c hc => h c (List.mem_of_mem_drop hc)⟩⟩
    · refine List.forall_mem_append.2 ⟨List.forall_mem_append.2 ⟨h, hzeros _⟩, ?_⟩
      cases style.fractionAlways <;> exact List.all_eq_true.1 rfl

theorem positional_ne_nil : style.positional d ≠ [] := by
  rw [NumberStyle.positional]
  split
  · simp
  · split
    · simp
    · next hpoint hcount =>
      intro hnil
      simp only [List.append_eq_nil_iff, List.replicate_eq_nil_iff] at hnil
      obtain ⟨⟨hdigits, hzeros⟩, -⟩ := hnil
      rw [hdigits, List.length_nil] at hcount hzeros
      omega

theorem isNumeral_scientific (h : ∀ c ∈ d.digits, isNumeral c = true) :
    ∀ c ∈ NumberStyle.scientific d, isNumeral c = true := by
  have hsign : ∀ negative : Prop, ∀ [Decidable negative],
      isNumeral (if negative then '-' else '+') = true := by
    intro negative _
    split <;> rfl
  refine List.forall_mem_append.2 ⟨List.forall_mem_append.2
    ⟨fun c hc => h c (List.mem_of_mem_take hc), ?_⟩, List.forall_mem_cons.2 ⟨rfl,
      List.forall_mem_cons.2 ⟨hsign _, fun c => isNumeral_of_mem_toDigits⟩⟩⟩
  split
  · exact fun _ hc => nomatch hc
  · exact List.forall_mem_cons.2 ⟨rfl, fun c hc => h c (List.mem_of_mem_drop hc)⟩

theorem isNumeral_text (x : Double) : ∀ c ∈ style.text x, isNumeral c = true := by
  have hsign : ∀ shown : Bool, ∀ c ∈ if shown then ['-'] else [], isNumeral c = true := by
    intro shown
    cases shown <;> exact List.all_eq_true.1 rfl
  have hdigits := isNumeral_shortest x.significand x.exponent
  rw [NumberStyle.text]
  split
  · refine List.forall_mem_append.2 ⟨hsign _, List.forall_mem_cons.2 ⟨rfl, ?_⟩⟩
    cases style.fractionAlways <;> exact List.all_eq_true.1 rfl
  · refine List.forall_mem_append.2 ⟨hsign _, ?_⟩
    split
    · exact isNumeral_positional hdigits
    · exact isNumeral_scientific hdigits

theorem text_ne_nil (x : Double) : style.text x ≠ [] := by
  rw [NumberStyle.text]
  split
  · simp
  · refine List.append_ne_nil_of_right_ne_nil _ ?_
    split
    · exact positional_ne_nil
    · simp [NumberStyle.scientific]

end Styles

/-- No character of a number comes next. -/
def Closed (rest : List Char) : Prop :=
  ∀ c ∈ rest.head?, isNumeral c = false

theorem closed_cons {c : Char} {rest : List Char} (h : isNumeral c = false) :
    Closed (c :: rest) := by
  intro d hd
  rw [List.head?_cons, Option.mem_some_iff] at hd
  exact hd ▸ h

theorem takeWhile_numeral {text rest : List Char} (htext : ∀ c ∈ text, isNumeral c = true)
    (hrest : Closed rest) : (text ++ rest).takeWhile isNumeral = text := by
  rw [List.takeWhile_append_of_pos htext]
  cases rest with
  | nil => simp
  | cons c rest => simp [hrest c rfl]

/-- Numbers end where their characters do. -/
theorem numeral_append_inj {text other rest later : List Char}
    (htext : ∀ c ∈ text, isNumeral c = true) (hother : ∀ c ∈ other, isNumeral c = true)
    (hrest : Closed rest) (hlater : Closed later) (h : text ++ rest = other ++ later) :
    text = other ∧ rest = later := by
  have htake := congrArg (List.takeWhile isNumeral) h
  rw [takeWhile_numeral htext hrest, takeWhile_numeral hother hlater] at htake
  exact ⟨htake, List.append_cancel_left (htake ▸ h)⟩

end AnchoredDid.Json
