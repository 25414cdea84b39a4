import AnchoredDid.Proofs.Scan

/-!
# Reading ahead never changes what a search finds

A walk that ends with an answer needed only the blocks that it went through. So a search that reads
no block ahead comes to the same end (`Scanner.next_of_walk`), and two searches from one cursor that
both end with an answer end the same, whatever their windows and buffers are
(`Scanner.Walk.unique`). Reading ahead is the only way in which the one can fail where the other
does not.

On the same way a search that reads no block ahead asks for no height that the other one has not
asked for. `Scanner.InStep` keeps this for two scanners side by side, call after call
(`Scanner.InStep.next`).
-/

namespace AnchoredDid

open Scanner (Walk)

variable {l : Ledger} {registry : Registry} {last height : Nat} {c d : Cursor}
variable {o : Scanner.Outcome}

namespace Scan

theorem signalsOf_nil {block : Block} {index : Nat} {tx : Transaction} {signals : List Signal}
    (h : signalsOf l [] block index tx = .ok signals) : signals = [] := by
  obtain ⟨scripts, -, rfl⟩ := signalsOf_eq_ok_iff.1 h
  rfl

/-- A walk that ends with an answer tells what looking through the block comes to. -/
theorem examine_of_walk {block : Block} (fetched : l.block height = .ok block)
    (range : height ≤ last) {index : Nat} {txs : List Transaction}
    (here : block.transactions.drop index = txs)
    (walk : Walk l registry last ⟨height, index⟩ o d) (answered : ∀ e, o ≠ .failed e) :
    match examine l registry block index txs with
    | .found signals next => o = .found signals ∧ d = ⟨height, next⟩
    | .failed _ _ => False
    | .nothing => Walk l registry last ⟨height + 1, 0⟩ o d := by
  induction txs generalizing index with
  | nil =>
      have hnone : block.transactions[index]? = none :=
        List.getElem?_eq_none (List.drop_eq_nil_iff.1 here)
      cases walk with
      | finished beyond => exact absurd range (Nat.not_le.2 beyond)
      | unexamined | unfetched => exact absurd rfl (answered _)
      | found _ fetched' here' | pass _ fetched' here' =>
          rw [← Except.ok.inj (fetched.symm.trans fetched'), hnone] at here'
          cases here'
      | leave _ _ _ rest => exact rest
  | cons tx rest ih =>
      have hget : block.transactions[index]? = some tx := by
        rw [← List.head?_drop, here, List.head?_cons]
      have hdrop : block.transactions.drop (index + 1) = rest := by
        rw [← List.drop_drop, here]
        rfl
      cases walk with
      | finished beyond => exact absurd range (Nat.not_le.2 beyond)
      | unexamined | unfetched => exact absurd rfl (answered _)
      | @found _ _ block' tx' signals _ fetched' here' examined some =>
          obtain rfl := Except.ok.inj (fetched.symm.trans fetched')
          obtain rfl := Option.some.inj (hget.symm.trans here')
          have hregistry : registry ≠ [] := by
            rintro rfl
            exact some (signalsOf_nil examined)
          obtain ⟨signal, signals, rfl⟩ := List.exists_cons_of_ne_nil some
          simp only [examine, List.isEmpty_iff, hregistry, if_false, examined]
          exact ⟨trivial, trivial⟩
      | @pass _ _ block' tx' _ _ _ fetched' here' examined more =>
          obtain rfl := Except.ok.inj (fetched.symm.trans fetched')
          obtain rfl := Option.some.inj (hget.symm.trans here')
          have hrest := ih hdrop more
          by_cases hregistry : registry = []
          · have hempty : registry.isEmpty := List.isEmpty_iff.2 hregistry
            simp only [examine_of_isEmpty _ _ hempty] at hrest ⊢
            exact hrest
          · have hexamined := examined.resolve_left hregistry
            simp only [examine, List.isEmpty_iff, hregistry, if_false, hexamined]
            exact hrest
      | leave _ fetched' ended =>
          obtain rfl := Except.ok.inj (fetched.symm.trans fetched')
          rw [List.getElem?_eq_none ended] at hget
          cases hget

end Scan

namespace Scanner

variable {s t u : Scanner}

/-- In the range a walk that ends with an answer has the block at its cursor. -/
theorem Walk.exists_block (walk : Walk l registry last c o d) (answered : ∀ e, o ≠ .failed e)
    (range : c.height ≤ last) : ∃ block, l.block c.height = .ok block := by
  cases walk with
  | finished beyond => exact absurd range (Nat.not_le.2 beyond)
  | unexamined | unfetched => exact absurd rfl (answered _)
  | found _ fetched | pass _ fetched | leave _ fetched => exact ⟨_, fetched⟩

/-- Behind the range there is nothing to walk through. -/
theorem Walk.of_past (walk : Walk l registry last c o d) (answered : ∀ e, o ≠ .failed e)
    (past : last < c.height) : o = .finished ∧ d = c := by
  cases walk with
  | finished => exact ⟨rfl, rfl⟩
  | unexamined | unfetched => exact absurd rfl (answered _)
  | found range | pass range | leave range => exact absurd range (Nat.not_le.2 past)

/-! ## No block ahead -/

/-- A scanner that reads no block ahead. -/
structure Serial (s : Scanner) : Prop where
  window_eq : s.window = 1
  length_le : s.buffer.length ≤ 1

theorem serial_resume (c : Cursor) (last : Nat) : (resume c last 1).Serial where
  window_eq := rfl
  length_le := Nat.zero_le 1

/-- All that it fetches is the block at its cursor. -/
theorem Serial.exists_fill (serial : s.Serial) (aligned : s.Aligned l)
    (range : s.cursor.height ≤ s.last) {block : Block}
    (fetched : l.block s.cursor.height = .ok block) :
    ∃ t, s.fill l = .ok t ∧ t.Serial ∧ t.buffer = [block] ∧
      ∀ k ∈ t.asked, k ∈ s.asked ∨ k = s.cursor.height := by
  cases hbuffer : s.buffer with
  | nil =>
      have hsize : s.windowSize = 1 := by
        rw [windowSize, serial.window_eq]
        omega
      refine ⟨s.filled [block], ?_, ⟨serial.window_eq, Nat.le_refl 1⟩, rfl, ?_⟩
      · simp [fill, hbuffer, hsize, Scan.fetch, fetched, Except.map]
      · intro k hk
        simpa [filled, or_comm] using hk
  | cons first later =>
      have hlater : later = [] := by
        have hlength := serial.length_le
        rw [hbuffer, List.length_cons] at hlength
        exact List.eq_nil_of_length_eq_zero (by omega)
      have hfirst : first = block := Except.ok.inj ((aligned.head hbuffer).symm.trans fetched)
      refine ⟨s, by simp [fill, hbuffer], serial, ?_, fun k hk => .inl hk⟩
      rw [hbuffer, hfirst, hlater]

/-- It comes to where a walk ends with an answer, and asks for the blocks on the way at most. -/
theorem search_of_walk {left : Nat} (serial : s.Serial) (aligned : s.Aligned l)
    (hleft : left = s.last + 1 - s.cursor.height) (walk : Walk l registry s.last s.cursor o d)
    (answered : ∀ e, o ≠ .failed e) :
    ∃ t, search l registry left s = (o, t) ∧ t.cursor = d ∧ t.Serial ∧
      ∀ k ∈ t.asked, k ∈ s.asked ∨ s.cursor.height ≤ k ∧ k ≤ d.height ∧ k ≤ s.last := by
  induction left generalizing s with
  | zero =>
      obtain ⟨rfl, rfl⟩ := walk.of_past answered (by omega)
      exact ⟨s, rfl, rfl, serial, fun k hk => .inl hk⟩
  | succ left ih =>
      have range : s.cursor.height ≤ s.last := by omega
      have hheight := walk.height_le
      obtain ⟨block, fetched⟩ := walk.exists_block answered range
      obtain ⟨t, hfill, tserial, hbuffer, hasked⟩ := serial.exists_fill aligned range fetched
      have hcursor := fill_cursor hfill
      have hlast := fill_last hfill
      have hexamine := Scan.examine_of_walk fetched range rfl walk answered
      rw [search]
      simp only [hfill, hbuffer, hcursor]
      split <;> rename_i heq <;> rw [heq] at hexamine
      · obtain ⟨rfl, rfl⟩ := hexamine
        refine ⟨_, rfl, rfl, ⟨tserial.window_eq, Nat.le_refl 1⟩, fun k hk => ?_⟩
        rcases hasked k hk with hk | rfl
        · exact .inl hk
        · exact .inr ⟨Nat.le_refl _, Nat.le_refl _, range⟩
      · exact hexamine.elim
      · obtain ⟨u, hsearch, hu, userial, husked⟩ :=
          ih (s := { t with buffer := [], cursor := ⟨s.cursor.height + 1, 0⟩ })
            ⟨tserial.window_eq, Nat.zero_le 1⟩ (fun k b hk => by simp at hk)
            (by dsimp only; omega) (hlast.symm ▸ hexamine)
        refine ⟨u, hsearch, hu, userial, fun k hk => ?_⟩
        rcases husked k hk with hk | hk
        · rcases hasked k hk with hk | rfl
          · exact .inl hk
          · exact .inr ⟨Nat.le_refl _, hheight, range⟩
        · dsimp only at hk
          exact .inr ⟨by omega, hk.2.1, by omega⟩

/-- A search that reads no block ahead ends as every walk that ends with an answer. -/
theorem next_of_walk (serial : s.Serial) (aligned : s.Aligned l)
    (walk : Walk l registry s.last s.cursor o d) (answered : ∀ e, o ≠ .failed e) :
    ∃ t, s.next l registry = (o, t) ∧ t.cursor = d ∧ t.Serial ∧
      ∀ k ∈ t.asked, k ∈ s.asked ∨ s.cursor.height ≤ k ∧ k ≤ d.height ∧ k ≤ s.last :=
  search_of_walk serial aligned rfl walk answered

/-- From one cursor there is one end with an answer. -/
theorem Walk.unique {o' : Outcome} {d' : Cursor} (walk : Walk l registry last c o d)
    (walk' : Walk l registry last c o' d') (answered : ∀ e, o ≠ .failed e)
    (answered' : ∀ e, o' ≠ .failed e) : o = o' ∧ d = d' := by
  obtain ⟨t, ht, hd, -⟩ :=
    next_of_walk (s := resume c last 1) (serial_resume c last) (aligned_resume l c last 1) walk
      answered
  obtain ⟨t', ht', hd', -⟩ :=
    next_of_walk (s := resume c last 1) (serial_resume c last) (aligned_resume l c last 1) walk'
      answered'
  obtain ⟨ho, htt'⟩ := Prod.mk.inj (ht.symm.trans ht')
  exact ⟨ho, by rw [← hd, ← hd', htt']⟩

/-! ## What has been asked for -/

/-- The blocks in the buffer have been asked for. -/
def Accounted (s : Scanner) : Prop :=
  ∀ k, k < s.buffer.length → s.cursor.height + k ∈ s.asked

theorem accounted_resume (c : Cursor) (last window : Nat) : (resume c last window).Accounted :=
  fun k hk => absurd hk (Nat.not_lt_zero k)

theorem fill_accounted (accounted : s.Accounted) (h : s.fill l = .ok t) :
    t.Accounted ∧ s.asked ⊆ t.asked := by
  rcases fill_eq h with rfl | ⟨blocks, rfl⟩
  · exact ⟨accounted, List.Subset.refl _⟩
  · refine ⟨fun k hk => ?_, List.subset_append_right _ _⟩
    simp only [filled, List.mem_append, List.mem_reverse, List.mem_map, List.mem_range]
    exact .inl ⟨k, hk, rfl⟩

/-- A search asks for every block that it goes through. -/
theorem search_accounted {left : Nat} (aligned : s.Aligned l) (accounted : s.Accounted)
    (hleft : left = s.last + 1 - s.cursor.height) (h : search l registry left s = (o, t))
    (answered : ∀ e, o ≠ .failed e) :
    t.Accounted ∧ s.asked ⊆ t.asked ∧
      ∀ k, s.cursor.height ≤ k → k ≤ t.cursor.height → k ≤ s.last → k ∈ t.asked := by
  induction left generalizing s with
  | zero =>
      cases h
      exact ⟨accounted, List.Subset.refl _, fun k hk _ hlast => by omega⟩
  | succ left ih =>
      have range : s.cursor.height ≤ s.last := by omega
      have hfill := fill_aligned aligned range
      rw [search] at h
      cases hfilled : s.fill l with
      | error e =>
          rw [hfilled] at h
          cases h
          exact absurd rfl (answered e)
      | ok u =>
          rw [hfilled] at hfill h
          obtain ⟨ualigned, hbuffer⟩ := hfill
          obtain ⟨uaccounted, hsubset⟩ := fill_accounted accounted hfilled
          have hheight : u.cursor.height = s.cursor.height :=
            congrArg Cursor.height (fill_cursor hfilled)
          have hlast := fill_last hfilled
          have hhere : s.cursor.height ∈ u.asked :=
            hheight ▸ uaccounted 0 (List.length_pos_iff.2 hbuffer)
          dsimp only at h
          split at h
          · next hnil => exact absurd hnil hbuffer
          · next block later hcons =>
            split at h
            · cases h
              refine ⟨uaccounted, hsubset, fun k hk hk' _ => ?_⟩
              have hplace : k = s.cursor.height := Nat.le_antisymm (hheight ▸ hk') hk
              exact hplace ▸ hhere
            · cases h
              exact absurd rfl (answered _)
            · have hlater : Accounted
                  { u with buffer := later, cursor := ⟨u.cursor.height + 1, 0⟩ } := by
                intro k hk
                have hnext := uaccounted (k + 1) (by rw [hcons]; exact Nat.succ_lt_succ hk)
                rwa [Nat.add_left_comm, Nat.add_comm] at hnext
              obtain ⟨taccounted, hsubset', hasked⟩ :=
                ih (ualigned.tail hcons) hlater (by dsimp only; omega) h
              refine ⟨taccounted, List.Subset.trans hsubset hsubset', fun k hk hk' hlast' => ?_⟩
              rcases Nat.eq_or_lt_of_le hk with rfl | hlt
              · exact hsubset' hhere
              · exact hasked k (by dsimp only; omega) hk' (by dsimp only; omega)

/-! ## Side by side -/

/-- The first scanner reads no block ahead and is where the second is, on the same way. -/
structure InStep (l : Ledger) (s u : Scanner) : Prop where
  cursor_eq : s.cursor = u.cursor
  last_eq : s.last = u.last
  serial : s.Serial
  aligned : s.Aligned l
  aligned' : u.Aligned l
  accounted : u.Accounted
  asked_subset : s.asked ⊆ u.asked

theorem inStep_resume (l : Ledger) (c : Cursor) (last window : Nat) :
    InStep l (resume c last 1) (resume c last window) where
  cursor_eq := rfl
  last_eq := rfl
  serial := serial_resume c last
  aligned := aligned_resume l c last 1
  aligned' := aligned_resume l c last window
  accounted := accounted_resume c last window
  asked_subset := List.Subset.refl _

/-- Where the second finds an answer the first finds the same, and has asked for no more. -/
theorem InStep.next (inStep : InStep l s u) {u' : Scanner} (h : u.next l registry = (o, u'))
    (answered : ∀ e, o ≠ .failed e) :
    ∃ s', s.next l registry = (o, s') ∧ InStep l s' u' := by
  obtain ⟨walk, ualigned, ulast⟩ := next_walk registry inStep.aligned'
  rw [h] at walk ualigned ulast
  rw [← inStep.cursor_eq, ← inStep.last_eq] at walk
  obtain ⟨s', hs', scursor, sserial, sasked⟩ :=
    next_of_walk inStep.serial inStep.aligned walk answered
  obtain ⟨-, saligned, slast⟩ := next_walk registry inStep.aligned
  rw [hs'] at saligned slast
  obtain ⟨uaccounted, hsubset, uasked⟩ :=
    search_accounted inStep.aligned' inStep.accounted rfl h answered
  refine ⟨s', hs', scursor, ?_, sserial, saligned, ualigned, uaccounted, fun k hk => ?_⟩
  · exact slast.trans (inStep.last_eq.trans ulast.symm)
  · rcases sasked k hk with hk | ⟨hfirst, hheight, hlast⟩
    · exact hsubset (inStep.asked_subset hk)
    · exact uasked k (inStep.cursor_eq ▸ hfirst) hheight (inStep.last_eq ▸ hlast)

end Scanner

end AnchoredDid
