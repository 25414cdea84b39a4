import AnchoredDid.Proofs.Json.Alike
import AnchoredDid.Proofs.Number.Digits

/-!
# Values whose numbers are integers

A double may be written as an integer is, but two integers are not written alike. So in values
without doubles nothing is lost in the canonical text: values with the same text are equal
(`Json.Integers.eq_of_canonicalText_eq`).
-/

namespace AnchoredDid.Json

/-- Every number in the value is an integer, and of each of them `P` holds. -/
inductive Integers (P : Int → Prop) : Json → Prop where
  | null : Integers P .null
  | bool (b : Bool) : Integers P (.bool b)
  | int {n : Int} (holds : P n) : Integers P (.int n)
  | string (s : String) : Integers P (.string s)
  | array {items : List Json} (each : ∀ x ∈ items, Integers P x) : Integers P (.array items)
  | object {members : List (String × Json)} (each : ∀ m ∈ members, Integers P m.2) :
      Integers P (.object members)

/-- Digits do not begin with a sign. -/
theorem toDigits_ne_cons_sign (n : Nat) (rest : List Char) : Nat.toDigits 10 n ≠ '-' :: rest := by
  intro h
  have hdigit : Char.isDigit '-' = true := Digits.isDigit_of_mem (h ▸ List.mem_cons_self)
  cases hdigit

theorem integerText_of_neg {n : Int} (h : n < 0) :
    integerText n = '-' :: Nat.toDigits 10 n.natAbs := by
  rw [integerText, if_pos h]
  rfl

theorem integerText_of_nonneg {n : Int} (h : 0 ≤ n) : integerText n = Nat.toDigits 10 n.natAbs := by
  rw [integerText, if_neg (Int.not_lt.2 h)]
  rfl

/-- The digits of an integer and its sign determine it. -/
theorem integerText_injective : Function.Injective integerText := by
  intro m n h
  rcases Int.lt_or_le m 0 with hm | hm <;> rcases Int.lt_or_le n 0 with hn | hn
  · rw [integerText_of_neg hm, integerText_of_neg hn] at h
    have habs := Digits.toDigits_injective (List.cons.inj h).2
    omega
  · rw [integerText_of_neg hm, integerText_of_nonneg hn] at h
    exact absurd h.symm (toDigits_ne_cons_sign _ _)
  · rw [integerText_of_nonneg hm, integerText_of_neg hn] at h
    exact absurd h (toDigits_ne_cons_sign _ _)
  · rw [integerText_of_nonneg hm, integerText_of_nonneg hn] at h
    have habs := Digits.toDigits_injective h
    omega

namespace Integers

variable {P Q : Int → Prop} {x y : Json} {items : List Json} {members : List (String × Json)}

theorem of_mem_array (h : Integers P (.array items)) : ∀ x ∈ items, Integers P x := by
  cases h with
  | array each => exact each

theorem of_mem_object (h : Integers P (.object members)) : ∀ m ∈ members, Integers P m.2 := by
  cases h with
  | object each => exact each

/-- Two numbers of these values are integers, which are written alike only if they are one. -/
theorem eq_of_isNumber (hx : Integers P x) (hy : Integers Q y) (left : x.isNumber = true)
    (right : y.isNumber = true) (text : x.canonicalText = y.canonicalText) : x = y := by
  cases hx with
  | int _ =>
      cases hy with
      | int _ => exact congrArg Json.int (integerText_injective text)
      | _ => cases right
  | _ => cases left

/-- Alike values without doubles are equal. -/
theorem eq_of_alike (hx : Integers P x) (hy : Integers Q y) (h : Alike x y) : x = y := by
  induction x using induction generalizing y with
  | array items ih =>
      cases h with
      | number left _ _ => cases left
      | array each =>
          refine congrArg Json.array ?_
          have hitems := hx.of_mem_array
          have hothers := hy.of_mem_array
          clear hx hy
          induction each with
          | nil => rfl
          | cons hfirst _ ihrest =>
              obtain ⟨hsame, hlater⟩ := List.forall_mem_cons.1 ih
              obtain ⟨hitem, hrest⟩ := List.forall_mem_cons.1 hitems
              obtain ⟨hother, hothers⟩ := List.forall_mem_cons.1 hothers
              rw [hsame hitem hother hfirst, ihrest hlater hrest hothers]
  | object members ih =>
      cases h with
      | number left _ _ => cases left
      | object each =>
          refine congrArg Json.object ?_
          have hmembers := hx.of_mem_object
          have hothers := hy.of_mem_object
          clear hx hy
          induction each with
          | nil => rfl
          | cons hfirst _ ihrest =>
              obtain ⟨name, hvalue⟩ := hfirst
              obtain ⟨hsame, hlater⟩ := List.forall_mem_cons.1 ih
              obtain ⟨hmember, hrest⟩ := List.forall_mem_cons.1 hmembers
              obtain ⟨hother, hothers⟩ := List.forall_mem_cons.1 hothers
              have hequal := hsame hmember hother hvalue
              dsimp only at hequal
              rw [hequal, ihrest hlater hrest hothers]
  | _ =>
      cases h with
      | number left right text => exact eq_of_isNumber hx hy left right text
      | _ => rfl

/-- The canonical text of a value without doubles determines it. -/
theorem eq_of_canonicalText_eq (hx : Integers P x) (hy : Integers Q y) (xOrdered : x.Ordered)
    (yOrdered : y.Ordered) (h : x.canonicalText = y.canonicalText) : x = y :=
  hx.eq_of_alike hy (alike_of_canonicalText_eq xOrdered yOrdered h)

end Integers

end AnchoredDid.Json
