/-!
# Numbers of 64 bits

Versions, heights and times are natural numbers throughout, and the program holds them in 64 bits.
The two differ only where an addition needs one bit more. A build that checks its additions stops
there, and one that does not leaves the bit out.
-/

namespace AnchoredDid

namespace Word

/-- How many numbers of 64 bits there are. -/
def size : Nat := Nat.pow 2 64

/-- The greatest number of 64 bits. -/
def greatest : Nat := size - 1

end Word

/-- What a build does with an addition that overflows. -/
inductive Build where
  | checked
  | unchecked
  deriving DecidableEq, Repr

namespace Build

/-- One more, where the build goes on. -/
def succ? (b : Build) (n : Nat) : Option Nat :=
  if n + 1 < Word.size then some (n + 1)
  else
    match b with
    | .checked => none
    | .unchecked => some 0

theorem succ?_of_lt (b : Build) {n : Nat} (h : n < Word.greatest) : b.succ? n = some (n + 1) :=
  if_pos (Nat.succ_lt_succ h)

theorem succ?_unchecked {n : Nat} (h : n < Word.size) :
    unchecked.succ? n = some ((n + 1) % Word.size) := by
  rw [succ?]
  split
  · next hfits => rw [Nat.mod_eq_of_lt hfits]
  · next hfits =>
    have hlast : n + 1 = Word.size := Nat.le_antisymm h (Nat.le_of_not_lt hfits)
    rw [hlast, Nat.mod_self]

theorem succ?_checked_of_le {n : Nat} (h : Word.greatest ≤ n) : checked.succ? n = none :=
  if_neg (Nat.not_lt.2 (Nat.succ_le_succ h))

end Build

end AnchoredDid
