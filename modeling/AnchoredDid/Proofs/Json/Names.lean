import Mathlib.Data.List.Lex
import Mathlib.Data.List.Perm.Basic
import AnchoredDid.Proofs.Json.Text

/-!
# The order of names

RFC 8785 compares names by their UTF-16 code units, which tell names apart (`Json.utf16_injective`).
The written names of an object are compared instead, with the quotation mark at the end and with
escapes. For names of plain characters the two orders agree (`Json.utf16_lt_of_plain`).
-/

namespace AnchoredDid.Json

/-! ## Code units -/

/-- The UTF-16 code units of a character, a pair of surrogates beyond the basic plane. -/
def units (c : Char) : List ℕ :=
  if c.toNat < 0x10000 then [c.toNat]
  else [0xd800 + (c.toNat - 0x10000) / 0x400, 0xdc00 + (c.toNat - 0x10000) % 0x400]

def utf16 (s : String) : List ℕ :=
  s.toList.flatMap units

/-- No code point is a surrogate. -/
theorem not_surrogate (c : Char) : c.toNat < 0xd800 ∨ 0xdfff < c.toNat ∧ c.toNat < 0x110000 :=
  c.valid

/-- Surrogates come in pairs only, so it is known where the units of a character end. -/
theorem units_append_inj {c d : Char} {rest later : List ℕ}
    (h : units c ++ rest = units d ++ later) : c = d ∧ rest = later := by
  have hc := not_surrogate c
  have hd := not_surrogate d
  have hcode : c.toNat = d.toNat ∧ rest = later := by
    unfold units at h
    split at h <;> split at h <;>
      simp only [List.cons_append, List.nil_append, List.cons.injEq] at h
    · exact h
    · omega
    · omega
    · exact ⟨by omega, h.2.2⟩
  exact ⟨Char.toNat_inj.1 hcode.1, hcode.2⟩

theorem units_ne_nil (c : Char) : units c ≠ [] := by
  unfold units
  split <;> exact List.cons_ne_nil _ _

theorem utf16_injective : Function.Injective utf16 := by
  have hchars : ∀ chars others : List Char, chars.flatMap units = others.flatMap units →
      chars = others := by
    intro chars
    induction chars with
    | nil =>
        intro others h
        cases others with
        | nil => rfl
        | cons d others =>
          exact absurd h.symm (List.append_ne_nil_of_left_ne_nil (units_ne_nil d) _)
    | cons c chars ih =>
        intro others h
        cases others with
        | nil => exact absurd h (List.append_ne_nil_of_left_ne_nil (units_ne_nil c) _)
        | cons d others =>
            obtain ⟨rfl, hrest⟩ := units_append_inj h
            rw [ih others hrest]
  exact fun s t h => String.toList_inj.1 (hchars _ _ h)

variable {α : Type}

/-- Things with different names can be put in the order of the code units of their names. -/
theorem exists_sorted_utf16 {pairs : List (String × α)}
    (distinct : pairs.Pairwise fun m n => m.1 ≠ n.1) :
    ∃ listed, List.Perm listed pairs ∧ listed.Pairwise fun m n => utf16 m.1 < utf16 n.1 := by
  have hpairwise : (pairs.mergeSort fun m n => decide (utf16 m.1 ≤ utf16 n.1)).Pairwise
      fun m n => decide (utf16 m.1 ≤ utf16 n.1) = true := by
    refine List.pairwise_mergeSort (fun _ _ _ hmn hnp => ?_) (fun m n => ?_) pairs
    · rw [decide_eq_true_eq] at hmn hnp ⊢
      exact le_trans hmn hnp
    · rw [Bool.or_eq_true, decide_eq_true_eq, decide_eq_true_eq]
      exact le_total _ _
  have hperm := List.mergeSort_perm pairs fun m n => decide (utf16 m.1 ≤ utf16 n.1)
  refine ⟨_, hperm, (hpairwise.and ((hperm.pairwise_iff fun h => Ne.symm h).2 distinct)).imp ?_⟩
  rintro m n ⟨hle, hne⟩
  exact lt_of_le_of_ne (of_decide_eq_true hle) fun heq => hne (utf16_injective heq)

/-! ## Written names -/

theorem quote_injective : Function.Injective quote := fun _ _ h =>
  (quote_append_inj (congrArg (· ++ []) h)).1

/-- Every character is written as itself, comes after the quotation mark, and is in the basic
plane. -/
def PlainName (s : String) : Prop :=
  ∀ c ∈ s.toList, '"' < c ∧ c ≠ '\\' ∧ c.toNat < 0x10000

instance (s : String) : Decidable (PlainName s) :=
  decidable_of_iff (s.toList.all fun c => '"' < c ∧ c ≠ '\\' ∧ c.toNat < 0x10000) (by
    simp only [List.all_eq_true, decide_eq_true_eq, PlainName])

theorem escapeChar_of_plain {c : Char} (hafter : '"' < c) (hslash : c ≠ '\\') :
    escapeChar c = [c] := by
  have hcode : 0x22 < c.toNat := hafter
  have hother : ∀ d : Char, d.toNat ≤ 0x22 → c ≠ d := by
    rintro d hd rfl
    omega
  rw [escapeChar, if_neg (hother _ (by decide)), if_neg hslash, if_neg (hother _ (by decide)),
    if_neg (hother _ (by decide)), if_neg (hother _ (by decide)), if_neg (hother _ (by decide)),
    if_neg (hother _ (by decide)), if_neg (by omega)]

theorem quote_of_plain {s : String} (h : PlainName s) : quote s = '"' :: (s.toList ++ ['"']) := by
  have hself : s.toList.flatMap escapeChar = s.toList.flatMap fun c => [c] :=
    List.flatMap_congr fun c hc => escapeChar_of_plain (h c hc).1 (h c hc).2.1
  rw [quote, hself, List.flatMap_singleton']
  rfl

theorem utf16_of_plain {s : String} (h : PlainName s) : utf16 s = s.toList.map Char.toNat := by
  have hself : s.toList.flatMap units = s.toList.flatMap fun c => [c.toNat] :=
    List.flatMap_congr fun c hc => if_pos (h c hc).2.2
  rw [utf16, hself, List.map_eq_flatMap]

/-- The quotation mark at the end of a name comes before anything that a longer name has there. -/
theorem map_toNat_lt {chars others : List Char} (hchars : ∀ c ∈ chars, '"' < c)
    (h : chars ++ ['"'] < others ++ ['"']) : chars.map Char.toNat < others.map Char.toNat := by
  induction chars generalizing others with
  | nil =>
      cases others with
      | nil => exact absurd h (List.lt_irrefl _)
      | cons d others => exact List.nil_lt_cons _ _
  | cons c chars ih =>
      obtain ⟨hc, hchars⟩ := List.forall_mem_cons.1 hchars
      cases others with
      | nil =>
          rcases List.cons_lt_cons_iff.1 h with hlt | ⟨-, hnil⟩
          · exact absurd (Char.lt_trans hc hlt) (Char.lt_irrefl _)
          · exact absurd hnil (List.not_lt_nil _)
      | cons d others =>
          rcases List.cons_lt_cons_iff.1 h with hlt | ⟨rfl, hrest⟩
          · exact List.cons_lt_cons_iff.2 (.inl hlt)
          · exact List.cons_lt_cons_iff.2 (.inr ⟨rfl, ih hchars hrest⟩)

theorem utf16_lt_of_plain {s t : String} (hs : PlainName s) (ht : PlainName t)
    (h : quote s < quote t) : utf16 s < utf16 t := by
  rw [quote_of_plain hs, quote_of_plain ht] at h
  rw [utf16_of_plain hs, utf16_of_plain ht]
  rcases List.cons_lt_cons_iff.1 h with hlt | ⟨-, hrest⟩
  · exact absurd hlt (Char.lt_irrefl _)
  · exact map_toNat_lt (fun c hc => (hs c hc).1) hrest

end AnchoredDid.Json
