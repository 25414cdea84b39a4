import AnchoredDid.Proofs.Loop
import AnchoredDid.Proofs.Scan
import AnchoredDid.Word

/-!
# Searches with heights of 64 bits

`Scanner.next?` counts heights as the program does, `Scanner.next` without end. The two part only
behind the greatest height, which a range that ends below it never comes to (`Scanner.next?_of_lt`).
Where the range ends there, a build that checks its additions stops instead of leaving the last
block, so what it answers is still what `Scanner.next` comes to (`Scanner.next?_checked`); one that
does not goes on with the first block of all.
-/

namespace AnchoredDid

namespace Scanner

/-- A turn of the search with heights of 64 bits, which ends it or leads into the next block. A
build may stop at the next height. -/
def turn? (b : Build) (ledger : Ledger) (registry : Registry) (s : Scanner) :
    Option (Outcome × Scanner ⊕ Scanner) :=
  if s.last < s.cursor.height then some (.inl (.finished, s))
  else
    match s.fill ledger with
    | .error e => some (.inl (.failed e, s))
    | .ok s =>
      match s.buffer with
      | [] => some (.inl (.finished, s))
      | block :: later =>
        match Scan.examine ledger registry block s.cursor.index
            (block.transactions.drop s.cursor.index) with
        | .found signals next =>
          some (.inl (.found signals, { s with cursor := ⟨s.cursor.height, next⟩ }))
        | .failed e next => some (.inl (.failed e, { s with cursor := ⟨s.cursor.height, next⟩ }))
        | .nothing => (b.succ? s.cursor.height).map fun height =>
          .inr { s with buffer := later, cursor := ⟨height, 0⟩ }

/-- The search with heights of 64 bits. No answer is a build that stopped at the next height, or one
that goes round for ever. -/
noncomputable def next? (b : Build) (ledger : Ledger) (registry : Registry) (s : Scanner) :
    Option (Outcome × Scanner) :=
  loop (turn? b ledger registry) s

variable {l : Ledger} {registry : Registry} {s : Scanner}

/-- The search ends with its first turn. -/
theorem next?_of_end {b : Build} {found : Outcome × Scanner}
    (h : s.turn? b l registry = some (.inl found)) : s.next? b l registry = some found := by
  rw [next?, loop_eq, h]
  rfl

/-- The search goes on from a block at hand. -/
theorem next?_of_fill (b : Build) (registry : Registry) (range : ¬ s.last < s.cursor.height)
    {t : Scanner} {block : Block} {later : List Block} (hfill : s.fill l = .ok t)
    (hbuffer : t.buffer = block :: later) :
    s.next? b l registry =
      match Scan.examine l registry block t.cursor.index
          (block.transactions.drop t.cursor.index) with
      | .found signals next => some (.found signals, { t with cursor := ⟨t.cursor.height, next⟩ })
      | .failed e next => some (.failed e, { t with cursor := ⟨t.cursor.height, next⟩ })
      | .nothing => (b.succ? t.cursor.height).bind fun height =>
          next? b l registry { t with buffer := later, cursor := ⟨height, 0⟩ } := by
  rw [next?, loop_eq, turn?, if_neg range]
  simp only [hfill, hbuffer]
  split
  · rfl
  · rfl
  · exact Option.bind_map

/-- Both searches come to the same in every build, unless the range ends at the greatest height and
a build that checks its additions has no answer. -/
theorem next?_cases (l : Ledger) (registry : Registry) (s : Scanner) :
    (∀ b, s.next? b l registry = some (s.next l registry)) ∨
      Word.greatest ≤ s.last ∧ s.next? .checked l registry = none := by
  rw [next]
  generalize hleft : s.last + 1 - s.cursor.height = left
  induction left generalizing s with
  | zero =>
      refine .inl fun b => ?_
      exact next?_of_end (if_pos (by omega))
  | succ left ih =>
      have range : ¬ s.last < s.cursor.height := by omega
      rw [search]
      cases hfill : s.fill l with
      | error e =>
          refine .inl fun b => next?_of_end ?_
          rw [turn?, if_neg range, hfill]
      | ok t =>
          have hcursor := fill_cursor hfill
          have hlast := fill_last hfill
          cases hbuffer : t.buffer with
          | nil =>
              refine .inl fun b => next?_of_end ?_
              rw [turn?, if_neg range]
              simp only [hfill, hbuffer]
          | cons block later =>
              have hturn := fun b => next?_of_fill b registry range hfill hbuffer
              cases hexamined : Scan.examine l registry block t.cursor.index
                  (block.transactions.drop t.cursor.index) with
              | found | failed => exact .inl fun b => by simp only [hturn, hexamined, hbuffer]
              | nothing =>
                  simp only [hturn, hexamined, hbuffer]
                  rcases Nat.lt_or_ge t.cursor.height Word.greatest with hlt | hge
                  · simp only [Build.succ?_of_lt _ hlt, Option.bind_some, ← hlast]
                    refine ih { t with buffer := later, cursor := ⟨t.cursor.height + 1, 0⟩ } ?_
                    rw [hcursor, hlast]
                    dsimp only
                    omega
                  · rw [Build.succ?_checked_of_le hge]
                    rw [hcursor] at hge
                    exact .inr ⟨by omega, rfl⟩

/-- A range that ends below the greatest height is searched alike. -/
theorem next?_of_lt (b : Build) (l : Ledger) (registry : Registry) (h : s.last < Word.greatest) :
    s.next? b l registry = some (s.next l registry) :=
  (next?_cases l registry s).resolve_right (fun hends => Nat.not_le.2 h hends.1) b

end Scanner

end AnchoredDid
