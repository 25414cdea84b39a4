import AnchoredDid.Patch
import AnchoredDid.Proofs.Outcome

/-!
# Patches that apply

A patch is applied operation by operation, so it applies if its parts do, one after the other.
-/

namespace AnchoredDid

/-- A test that passes leaves the document as it is. -/
theorem Operation.eq_of_apply_test {path : String} {value x y : Json}
    (h : (test path value).apply x = .ok y) : y = x := by
  obtain ⟨found, -, hfound⟩ := bind_eq_ok_iff.1 h
  split at hfound
  · exact (Except.ok.inj hfound).symm
  · cases hfound

namespace Patch

variable {patch later : Patch} {x y z : Json}

@[simp] theorem apply_nil (x : Json) : apply [] x = .ok x := rfl

theorem apply_cons (operation : Operation) (patch : Patch) (x : Json) :
    apply (operation :: patch) x = operation.apply x >>= patch.apply := rfl

theorem apply_singleton (operation : Operation) (x : Json) :
    apply [operation] x = operation.apply x := by
  rw [apply_cons]
  cases operation.apply x <;> rfl

theorem apply_append (patch later : Patch) (x : Json) :
    apply (patch ++ later) x = patch.apply x >>= later.apply :=
  List.foldlM_append

/-- One patch after the other. -/
theorem apply_append_of_ok (h : patch.apply x = .ok y) :
    apply (patch ++ later) x = later.apply y := by
  rw [apply_append, h]
  rfl

end Patch

end AnchoredDid
