import Mathlib.Data.PFun

/-!
# Loops that need not end

A turn of a loop gives its result, or what the next turn starts from, or stops the program. A loop
comes to nothing if one of its turns stops, or if it takes turns for ever.
-/

namespace AnchoredDid

variable {α σ : Type}

/-- All turns of a loop, where they come to an end. -/
def turns (turn : σ → Option (α ⊕ σ)) : σ →. α :=
  PFun.fix fun s => Part.ofOption (turn s)

open Classical in
/-- What a loop comes to. -/
noncomputable def loop (turn : σ → Option (α ⊕ σ)) (s : σ) : Option α :=
  (turns turn s).toOption

theorem mem_turns_iff {turn : σ → Option (α ⊕ σ)} {s : σ} {a : α} :
    a ∈ turns turn s ↔ turn s = some (.inl a) ∨ ∃ t, turn s = some (.inr t) ∧ a ∈ turns turn t := by
  refine PFun.mem_fix_iff.trans ?_
  simp only [Part.mem_ofOption, Option.mem_def]
  rfl

/-- A loop goes on from what its first turn leaves, unless that ends it. -/
theorem loop_eq (turn : σ → Option (α ⊕ σ)) (s : σ) :
    loop turn s = (turn s).bind fun
      | .inl a => some a
      | .inr t => loop turn t := by
  classical
  ext a
  rw [loop, Part.toOption_eq_some_iff, mem_turns_iff, Option.bind_eq_some_iff]
  constructor
  · rintro (hend | ⟨t, hturn, ha⟩)
    · exact ⟨.inl a, hend, rfl⟩
    · exact ⟨.inr t, hturn, Part.toOption_eq_some_iff.2 ha⟩
  · rintro ⟨_ | t, hturn, ha⟩
    · exact .inl (hturn.trans (congrArg (some ∘ Sum.inl) (Option.some.inj ha)))
    · exact .inr ⟨t, hturn, Part.toOption_eq_some_iff.1 ha⟩

end AnchoredDid
