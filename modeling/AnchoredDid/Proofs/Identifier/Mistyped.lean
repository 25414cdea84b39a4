import AnchoredDid.Identifier.Vectors
import AnchoredDid.Proofs.Identifier
import Mathlib.Data.List.Basic

/-!
# Mistyped identifiers

Two identifiers with texts of one length never differ in a single character, so a text with one
wrong character is refused (`Identifier.decode_mistyped`). The letter of the kind enters the
checksum as the data does. Hence the symbols that are checked differ in as many places as the texts
(`Identifier.differences_checked`), and where this is one place they leave different remainders
(`Bech32.remainder_ne_of_differences`).
-/

namespace AnchoredDid

namespace Text

variable {α β : Type} [DecidableEq α] [DecidableEq β] {xs ys : List α}

/-- The number of places at which two lists hold different elements, as far as both of them go. -/
def differences (xs ys : List α) : Nat :=
  (xs.zip ys).countP fun p => p.1 ≠ p.2

@[simp] theorem differences_cons (x y : α) (xs ys : List α) :
    differences (x :: xs) (y :: ys) = differences xs ys + if x ≠ y then 1 else 0 := by
  simp [differences, List.countP_cons]

theorem differences_append (h : xs.length = ys.length) (xs' ys' : List α) :
    differences (xs ++ xs') (ys ++ ys') = differences xs ys + differences xs' ys' := by
  rw [differences, List.zip_append h, List.countP_append, differences, differences]

@[simp] theorem differences_self (xs : List α) : differences xs xs = 0 := by
  induction xs with
  | nil => rfl
  | cons x xs ih => simp [ih]

theorem differences_map {f : α → β} (hf : Function.Injective f) (xs ys : List α) :
    differences (xs.map f) (ys.map f) = differences xs ys := by
  rw [differences, List.zip_map, List.countP_map, differences]
  refine List.countP_congr fun p _ => ?_
  simp [hf.ne_iff]

theorem eq_of_differences_eq_zero (hlength : xs.length = ys.length)
    (h : differences xs ys = 0) : xs = ys := by
  induction xs generalizing ys with
  | nil => exact (List.length_eq_zero_iff.1 hlength.symm).symm
  | cons x xs ih =>
      cases ys with
      | nil => cases hlength
      | cons y ys =>
          rw [differences_cons, Nat.add_eq_zero_iff] at h
          have hhead : x = y := by simpa using h.2
          rw [hhead, ih (Nat.succ.inj hlength) h.1]

/-- Lists of one length that differ in one place are equal before it and behind it. -/
theorem exists_of_differences_eq_one (hlength : xs.length = ys.length)
    (h : differences xs ys = 1) :
    ∃ before x y after, xs = before ++ x :: after ∧ ys = before ++ y :: after ∧ x ≠ y := by
  induction xs generalizing ys with
  | nil => simp [differences] at h
  | cons x xs ih =>
      cases ys with
      | nil => cases hlength
      | cons y ys =>
          have hrest := Nat.succ.inj hlength
          rw [differences_cons] at h
          by_cases hhead : x = y
          · subst hhead
            obtain ⟨before, u, v, after, rfl, rfl, hne⟩ := ih hrest (by simpa using h)
            exact ⟨x :: before, u, v, after, rfl, rfl, hne⟩
          · obtain rfl := eq_of_differences_eq_zero hrest (by simpa [hhead] using h)
            exact ⟨[], x, y, xs, rfl, rfl, hhead⟩

end Text

namespace Bech32

theorem Symbol.char_injective : Function.Injective Symbol.char := by
  intro s t h
  have hread := congrArg Symbol.ofChar? h
  rw [Symbol.ofChar?_char, Symbol.ofChar?_char] at hread
  exact Option.some.inj hread

/-- Symbols that differ in one place leave different remainders. -/
theorem remainder_ne_of_differences {w : BitVec 30} {symbols others : List Symbol}
    (hlength : symbols.length = others.length) (h : Text.differences symbols others = 1) :
    remainder w symbols ≠ remainder w others := by
  obtain ⟨before, s, t, after, rfl, rfl, hne⟩ := Text.exists_of_differences_eq_one hlength h
  exact fun heq => hne (eq_of_remainder_eq heq)

end Bech32

namespace Identifier

/-- All symbols that are checked; the kind's letter stands for the first ones. -/
def checked (i : Identifier) : List Bech32.Symbol :=
  Bech32.expand i.kind.label.toList ++ i.symbols

theorem remainder_checked (i : Identifier) :
    Bech32.remainder 1 i.checked = Bech32.Variant.bech32m.residue := by
  have hvalid : Bech32.isValid .bech32m i.kind.label.toList i.symbols = true :=
    (Bech32.isValid_append_iff rfl).2 rfl
  rw [checked, Bech32.remainder_append]
  exact of_decide_eq_true hvalid

theorem length_label (kind : IdentifierKind) : kind.label.toList.length = 1 := by
  cases kind <;> rfl

/-- One letter is told from the other by one of its symbols. -/
theorem differences_expand (kind other : IdentifierKind) :
    Text.differences (Bech32.expand kind.label.toList) (Bech32.expand other.label.toList) =
      Text.differences kind.label.toList other.label.toList := by
  cases kind <;> cases other <;> decide

/-- As many symbols are changed as characters. -/
theorem differences_checked (i j : Identifier) : Text.differences i.checked j.checked =
    Text.differences i.text.toList j.text.toList := by
  have hlabel : i.kind.label.toList.length = j.kind.label.toList.length := by
    rw [length_label, length_label]
  have hexpand : (Bech32.expand i.kind.label.toList).length =
      (Bech32.expand j.kind.label.toList).length := by
    simp [Bech32.expand, hlabel]
  rw [checked, checked, Text.differences_append hexpand, differences_expand, toList_text,
    toList_text, Text.differences_append rfl, Text.differences_append hlabel,
    Text.differences_cons, Text.differences_map Bech32.Symbol.char_injective]
  simp

theorem length_checked {i j : Identifier} (h : j.text.length = i.text.length) :
    i.checked.length = j.checked.length := by
  rw [← String.length_toList, ← String.length_toList, toList_text, toList_text] at h
  simp only [List.length_append, List.length_cons, List.length_map, length_label] at h
  simp only [checked, Bech32.expand, List.length_append, List.length_map, List.length_cons,
    length_label]
  omega

/-- One wrong character makes no other identifier: of a text that is decoded and one of the same
length that differs from it in one place, the second is refused. -/
theorem decode_mistyped {text mistyped : String} {i : Identifier} (h : decode text = .ok i)
    (hlength : mistyped.length = text.length)
    (hone : Text.differences text.toList mistyped.toList = 1) :
    ∃ e, decode mistyped = .error e := by
  obtain ⟨rfl, -⟩ := decode_eq_ok_iff.1 h
  cases hother : decode mistyped with
  | error e => exact ⟨e, rfl⟩
  | ok j =>
      obtain ⟨rfl, -⟩ := decode_eq_ok_iff.1 hother
      rw [← differences_checked] at hone
      have hremainder := Bech32.remainder_ne_of_differences (w := 1) (length_checked hlength) hone
      rw [remainder_checked, remainder_checked] at hremainder
      exact absurd rfl hremainder

end Identifier

namespace Sample

def known : String :=
  "did:btcr2:k1qqpkyr20hr2ugzcdctulmprrdkz5slj3an64l0x4encgc6kpfz7g5dsaaw53r"

/-- A second separator in place of the last character but one. -/
def mistyped : String :=
  "did:btcr2:k1qqpkyr20hr2ugzcdctulmprrdkz5slj3an64l0x4encgc6kpfz7g5dsaaw51r"

end Sample

namespace Identifier

theorem decode_mistyped_sample :
    decode Sample.known = .ok ⟨.key, 1, .bitcoin, KnownIdentifier.key⟩ ∧
    Sample.mistyped.length = Sample.known.length ∧
    Text.differences Sample.known.toList Sample.mistyped.toList = 1 ∧
    ∃ e, decode Sample.mistyped = .error e := by
  have hdecode : decode Sample.known = .ok ⟨.key, 1, .bitcoin, KnownIdentifier.key⟩ :=
    decode_eq_ok_iff.2 ⟨by decide +kernel, by decide +kernel⟩
  have hlength : Sample.mistyped.length = Sample.known.length := by decide +kernel
  have hone : Text.differences Sample.known.toList Sample.mistyped.toList = 1 := by
    decide +kernel
  exact ⟨hdecode, hlength, hone, decode_mistyped hdecode hlength hone⟩

end Identifier

end AnchoredDid
