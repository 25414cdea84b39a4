import AnchoredDid.Bytes.Bech32
import AnchoredDid.Proofs.Bytes.Bits

/-!
# Bech32 is read as it was written

The checksum is linear, and six symbols fill an empty word with themselves; so behind any data there
are exactly one six that leave the residue (`Bech32.isValid_append_iff`). No step loses anything, so
one changed symbol changes the remainder (`Bech32.eq_of_remainder_eq`). Bytes and padded symbols
determine each other (`Bech32.bytesOfSymbols_symbolsOfBytes`,
`Bech32.symbolsOfBytes_bytesOfSymbols`), and so do a text and what it is read as
(`Bech32.parse_eq_ok_iff`).
-/

namespace AnchoredDid.Bech32

/-! ## Symbols -/

theorem Symbol.bits_ofNat : ∀ b4 b3 b2 b1 b0 : Bool,
    Symbol.bits (BitVec.ofNat 5 (Bytes.natOfBits [b4, b3, b2, b1, b0])) = [b4, b3, b2, b1, b0] := by
  decide

theorem Symbol.ofNat_bits : ∀ s : Symbol, BitVec.ofNat 5 (Bytes.natOfBits s.bits) = s := by
  decide

theorem Symbol.ofChar?_char : ∀ s : Symbol, Symbol.ofChar? s.char = some s := by
  decide

/-! ## The checksum -/

/-- Which multiples of the generator are added is decided bit by bit. -/
theorem foldl_multiples_xor (multiples : List (BitVec 30 × Nat)) (w v x y : BitVec 30) :
    multiples.foldl (fun x g => if (w ^^^ v).getLsbD (25 + g.2) then x ^^^ g.1 else x) (x ^^^ y) =
      multiples.foldl (fun x g => if w.getLsbD (25 + g.2) then x ^^^ g.1 else x) x ^^^
        multiples.foldl (fun x g => if v.getLsbD (25 + g.2) then x ^^^ g.1 else x) y := by
  induction multiples generalizing x y with
  | nil => rfl
  | cons g rest ih =>
      simp only [List.foldl_cons, BitVec.getLsbD_xor] at ih ⊢
      rw [← ih]
      congr 1
      cases w.getLsbD (25 + g.2) <;> cases v.getLsbD (25 + g.2) <;> simp
      · ac_rfl
      · ac_rfl
      · have hcancel : x ^^^ g.1 ^^^ (y ^^^ g.1) = x ^^^ y ^^^ (g.1 ^^^ g.1) := by ac_rfl
        rw [hcancel, BitVec.xor_self, BitVec.xor_zero]

/-- Taking in a symbol is linear over the field of two elements. -/
theorem step_xor (w v : BitVec 30) (s t : Symbol) :
    step (w ^^^ v) (s ^^^ t) = step w s ^^^ step v t := by
  have hshifted : ((w ^^^ v) <<< 5) ^^^ (s ^^^ t).setWidth 30 =
      ((w <<< 5) ^^^ s.setWidth 30) ^^^ ((v <<< 5) ^^^ t.setWidth 30) := by
    rw [BitVec.shiftLeft_xor_distrib, BitVec.setWidth_xor]
    ac_rfl
  simp only [step, hshifted, foldl_multiples_xor]

theorem remainder_xor (w v : BitVec 30) {symbols others : List Symbol}
    (h : symbols.length = others.length) :
    remainder (w ^^^ v) (List.zipWith (· ^^^ ·) symbols others) =
      remainder w symbols ^^^ remainder v others := by
  induction symbols generalizing w v others with
  | nil =>
      cases others with
      | nil => rfl
      | cons t others => cases h
  | cons s symbols ih =>
      cases others with
      | nil => cases h
      | cons t others =>
          have hrest := ih (step w s) (step v t) (Nat.succ.inj h)
          rw [← step_xor] at hrest
          exact hrest

/-- Until the word is full, symbols are only shifted in. -/
theorem toNat_step {w : BitVec 30} (h : w.toNat < 2 ^ 25) (s : Symbol) :
    (step w s).toNat = 32 * w.toNat + s.toNat := by
  have hfree : ∀ i, w.getLsbD (25 + i) = false := fun i =>
    Nat.testBit_lt_two_pow (Nat.lt_of_lt_of_le h (Nat.pow_le_pow_right (by decide) (by omega)))
  have hshift : (w <<< 5) ^^^ s.setWidth 30 = (w.setWidth 25 ++ s : BitVec 30) := by
    apply BitVec.eq_of_getLsbD_eq
    intro i hi
    rw [BitVec.getLsbD_xor, BitVec.getLsbD_append, BitVec.getLsbD_shiftLeft,
      BitVec.getLsbD_setWidth, BitVec.getLsbD_setWidth]
    by_cases hlow : i < 5
    · simp [hlow, hi]
    · simp [hlow, hi, show i - 5 < 25 by omega, BitVec.getLsbD_of_ge s i (by omega)]
  have hstep : step w s = (w.setWidth 25 ++ s : BitVec 30) := by
    simp only [step, generators, List.zipIdx, List.foldl, hfree, Bool.false_eq_true, if_false,
      hshift]
  have hlow := s.isLt
  rw [hstep, BitVec.toNat_append, BitVec.toNat_setWidth, Nat.mod_eq_of_lt h, Nat.shiftLeft_eq,
    Nat.mul_comm, ← Nat.two_pow_add_eq_or_of_lt hlow]

/-- The number that symbols spell behind another one. -/
def spell (n : Nat) (symbols : List Symbol) : Nat :=
  symbols.foldl (fun n s => 32 * n + s.toNat) n

theorem toNat_remainder {w : BitVec 30} {symbols : List Symbol} (hlength : symbols.length ≤ 6)
    (h : w.toNat < 32 ^ (6 - symbols.length)) :
    (remainder w symbols).toNat = spell w.toNat symbols := by
  induction symbols generalizing w with
  | nil => rfl
  | cons s rest ih =>
      rw [List.length_cons] at hlength h
      have hstep := toNat_step (Nat.lt_of_lt_of_le h
        (Nat.pow_le_pow_right (by decide) (by omega : 6 - (rest.length + 1) ≤ 5))) s
      have hroom : 32 ^ (6 - rest.length) = 32 * 32 ^ (6 - (rest.length + 1)) := by
        rw [← Nat.pow_succ']
        congr 1
        omega
      have hs := s.isLt
      have hrest := ih (w := step w s) (by omega) (by omega)
      rw [hstep] at hrest
      exact hrest

/-- A word as six symbols. -/
def symbolsOfWord (word : BitVec 30) : List Symbol :=
  [word.extractLsb' 25 5, word.extractLsb' 20 5, word.extractLsb' 15 5, word.extractLsb' 10 5,
    word.extractLsb' 5 5, word.extractLsb' 0 5]

theorem toNat_remainder_zero {symbols : List Symbol} (h : symbols.length = 6) :
    (remainder 0 symbols).toNat = spell 0 symbols :=
  toNat_remainder (Nat.le_of_eq h) (by simp [h])

/-- Six symbols fill an empty word with themselves. -/
theorem remainder_symbolsOfWord (word : BitVec 30) : remainder 0 (symbolsOfWord word) = word := by
  apply BitVec.eq_of_toNat_eq
  rw [toNat_remainder_zero rfl]
  have hword := word.isLt
  simp only [spell, symbolsOfWord, List.foldl_cons, List.foldl_nil, BitVec.extractLsb'_toNat,
    Nat.shiftRight_eq_div_pow]
  omega

theorem symbolsOfWord_remainder {symbols : List Symbol} (h : symbols.length = 6) :
    symbolsOfWord (remainder 0 symbols) = symbols := by
  have hword := toNat_remainder_zero h
  match symbols, h with
  | [c0, c1, c2, c3, c4, c5], _ =>
    have h0 := c0.isLt
    have h1 := c1.isLt
    have h2 := c2.isLt
    have h3 := c3.isLt
    have h4 := c4.isLt
    have h5 := c5.isLt
    simp only [spell, List.foldl_cons, List.foldl_nil] at hword
    simp only [symbolsOfWord, List.cons.injEq, and_true, ← BitVec.toNat_inj,
      BitVec.extractLsb'_toNat, hword, Nat.shiftRight_eq_div_pow]
    omega

theorem remainder_append (w : BitVec 30) (symbols others : List Symbol) :
    remainder w (symbols ++ others) = remainder (remainder w symbols) others :=
  List.foldl_append

/-- Six symbols at the end of the data make it valid if they are its checksum, and no others do. -/
theorem isValid_append_iff {variant : Variant} {label : List Char} {data last : List Symbol}
    (h : last.length = 6) :
    isValid variant label (data ++ last) ↔ last = checksum variant label data := by
  have hsplit : remainder (start label) (data ++ last) =
      remainder (start label) (data ++ List.replicate 6 0) ^^^ remainder 0 last := by
    have hzeros : List.zipWith (· ^^^ ·) (List.replicate 6 0) last = last := by
      match last, h with
      | [c0, c1, c2, c3, c4, c5], _ => simp [List.replicate]
    rw [remainder_append, remainder_append, ← remainder_xor _ _ (by simp [h]), hzeros]
    simp
  have hchecksum : checksum variant label data = symbolsOfWord
      (remainder (start label) (data ++ List.replicate 6 0) ^^^ variant.residue) := rfl
  rw [isValid, decide_eq_true_iff, hsplit, hchecksum]
  constructor
  · intro hvalid
    rw [← hvalid, ← BitVec.xor_assoc, BitVec.xor_self, BitVec.zero_xor, symbolsOfWord_remainder h]
  · rintro rfl
    rw [remainder_symbolsOfWord, ← BitVec.xor_assoc, BitVec.xor_self, BitVec.zero_xor]

/-! ## Changed symbols -/

/-- The five bits that leave a word at its top come back at its bottom, as the generator's last
coefficient is not zero. -/
theorem eq_zero_of_step_top : ∀ top : Symbol,
    (step (top.setWidth 30 <<< 25) 0).setWidth 5 = 0#5 → top = 0#5 := by
  decide

theorem top_xor_others (w : BitVec 30) :
    ((w.extractLsb' 25 5).setWidth 30 <<< 25) ^^^ (w.setWidth 25).setWidth 30 = w := by
  apply BitVec.eq_of_getLsbD_eq
  intro i hi
  simp only [BitVec.getLsbD_xor, BitVec.getLsbD_shiftLeft, BitVec.getLsbD_setWidth,
    BitVec.getLsbD_extractLsb']
  by_cases hlow : i < 25
  · simp [hlow, hi]
  · have hplace : 25 + (i - 25) = i := by omega
    have htop : i - 25 < 5 := by omega
    have hwhole : i - 25 < 30 := by omega
    simp [hlow, hi, hplace, htop, hwhole]

/-- Only an empty word is empty after a zero. -/
theorem eq_zero_of_step_zero {w : BitVec 30} (h : step w 0 = 0#30) : w = 0#30 := by
  have hsmall : ((w.setWidth 25).setWidth 30).toNat < 2 ^ 25 := by
    rw [BitVec.toNat_setWidth_of_le (by decide)]
    exact (w.setWidth 25).isLt
  have hshifted : (step ((w.setWidth 25).setWidth 30) 0).setWidth 5 = 0#5 := by
    apply BitVec.eq_of_toNat_eq
    rw [BitVec.toNat_setWidth, toNat_step hsmall]
    simp
  have hsplit : step ((w.extractLsb' 25 5).setWidth 30 <<< 25) 0 ^^^
      step ((w.setWidth 25).setWidth 30) 0 = 0#30 := by
    rw [← step_xor, BitVec.xor_self, top_xor_others]
    exact h
  have htop : w.extractLsb' 25 5 = 0#5 := by
    apply eq_zero_of_step_top
    rw [BitVec.xor_eq_zero_iff.1 hsplit]
    exact hshifted
  have hothers : (w.setWidth 25).setWidth 30 = w := by
    have hw := top_xor_others w
    rw [htop] at hw
    simpa using hw
  rw [hothers] at hsmall
  have hzero := toNat_step hsmall 0
  rw [h] at hzero
  apply BitVec.eq_of_toNat_eq
  simpa using hzero.symm

/-- Taking in a symbol does not make different words equal. -/
theorem step_left_injective {w v : BitVec 30} {s : Symbol} (h : step w s = step v s) : w = v := by
  apply BitVec.xor_eq_zero_iff.1
  apply eq_zero_of_step_zero
  have hxor := step_xor w v s s
  rwa [h, BitVec.xor_self, BitVec.xor_self] at hxor

/-- Different symbols make a word different. -/
theorem step_right_injective {w : BitVec 30} {s t : Symbol} (h : step w s = step w t) : s = t := by
  apply BitVec.xor_eq_zero_iff.1
  apply BitVec.eq_of_toNat_eq
  have hxor := step_xor w w s t
  rw [h, BitVec.xor_self, BitVec.xor_self] at hxor
  have hempty := toNat_step (w := 0#30) (by decide) (s ^^^ t)
  rw [hxor] at hempty
  simpa using hempty.symm

theorem remainder_left_injective {w v : BitVec 30} {symbols : List Symbol}
    (h : remainder w symbols = remainder v symbols) : w = v := by
  induction symbols generalizing w v with
  | nil => exact h
  | cons s rest ih => exact step_left_injective (ih h)

/-- A symbol in a place determines, with all others, the remainder, and the remainder the symbol. -/
theorem eq_of_remainder_eq {w : BitVec 30} {before after : List Symbol} {s t : Symbol}
    (h : remainder w (before ++ s :: after) = remainder w (before ++ t :: after)) : s = t := by
  rw [remainder_append, remainder_append] at h
  exact step_right_injective (remainder_left_injective h)

/-! ## Bytes and symbols -/

theorem bitsOfSymbols_cons (s : Symbol) (rest : List Symbol) :
    bitsOfSymbols (s :: rest) = s.bits ++ bitsOfSymbols rest := rfl

theorem length_bitsOfSymbols (symbols : List Symbol) :
    (bitsOfSymbols symbols).length = 5 * symbols.length := by
  induction symbols with
  | nil => rfl
  | cons s rest ih =>
      rw [bitsOfSymbols_cons, List.length_append, ih, List.length_cons]
      simp only [Symbol.bits, List.length_cons, List.length_nil]
      omega

theorem symbolsOfBits_bitsOfSymbols (symbols : List Symbol) :
    symbolsOfBits (bitsOfSymbols symbols) = symbols := by
  induction symbols with
  | nil => rfl
  | cons s rest ih =>
      have hgroup : symbolsOfBits (s.bits ++ bitsOfSymbols rest) =
          BitVec.ofNat 5 (Bytes.natOfBits s.bits) :: symbolsOfBits (bitsOfSymbols rest) := rfl
      rw [bitsOfSymbols_cons, hgroup, ih, Symbol.ofNat_bits]

/-- The last symbol is filled up with zeros. -/
theorem bitsOfSymbols_symbolsOfBits (bits : List Bool) :
    bitsOfSymbols (symbolsOfBits bits) =
      bits ++ List.replicate ((5 - bits.length % 5) % 5) false := by
  fun_induction symbolsOfBits bits with
  | case1 => rfl
  | case2 b4 b3 b2 b1 b0 rest ih =>
      have hlength : (b4 :: b3 :: b2 :: b1 :: b0 :: rest).length % 5 = rest.length % 5 := by
        simp only [List.length_cons]
        omega
      rw [hlength, bitsOfSymbols_cons, Symbol.bits_ofNat, ih]
      rfl
  | case3 few hnil hfew =>
      match few with
      | [] => exact absurd rfl hnil
      | [_] | [_, _] | [_, _, _] | [_, _, _, _] => exact Symbol.bits_ofNat _ _ _ _ _
      | _ :: _ :: _ :: _ :: _ :: _ => exact absurd rfl (hfew _ _ _ _ _ _)

theorem symbolsOfBits_append {bits : List Bool} {count : Nat}
    (h : count = (5 - bits.length % 5) % 5) :
    symbolsOfBits (bits ++ List.replicate count false) = symbolsOfBits bits := by
  rw [h, ← bitsOfSymbols_symbolsOfBits, symbolsOfBits_bitsOfSymbols]

/-- Bytes are read back from the symbols that write them. -/
theorem bytesOfSymbols_symbolsOfBytes (bytes : Bytes) :
    bytesOfSymbols (symbolsOfBytes bytes) = bytes := by
  rw [bytesOfSymbols, symbolsOfBytes, bitsOfSymbols_symbolsOfBits, Bytes.ofBits_bits_append,
    Bytes.ofBits_of_length_lt, List.append_nil]
  rw [List.length_replicate]
  omega

theorem isPadded_symbolsOfBytes (bytes : Bytes) : isPadded (symbolsOfBytes bytes) = true := by
  have hbits := bitsOfSymbols_symbolsOfBits bytes.bits
  have hspare : (bitsOfSymbols (symbolsOfBytes bytes)).length % 8 =
      (5 - bytes.bits.length % 5) % 5 := by
    rw [symbolsOfBytes, hbits, List.length_append, List.length_replicate, Bytes.length_bits]
    omega
  simp only [isPadded, hspare, Bool.and_eq_true, decide_eq_true_eq, List.all_eq_true]
  refine ⟨by omega, ?_⟩
  rw [symbolsOfBytes, hbits, List.length_append, List.length_replicate, Nat.add_sub_cancel,
    List.drop_left]
  exact fun b hb => List.eq_of_mem_replicate hb

/-- Padded symbols are those that write their bytes. -/
theorem symbolsOfBytes_bytesOfSymbols {symbols : List Symbol} (h : isPadded symbols = true) :
    symbolsOfBytes (bytesOfSymbols symbols) = symbols := by
  obtain ⟨few, hbits, hfew⟩ := Bytes.bits_ofBits (bitsOfSymbols symbols)
  have hlength := congrArg List.length hbits
  rw [List.length_append, length_bitsOfSymbols] at hlength
  simp only [isPadded, Bool.and_eq_true, decide_eq_true_eq, List.all_eq_true, ← hfew] at h
  obtain ⟨hspare, hzero⟩ := h
  have hdrop :
      (bitsOfSymbols symbols).drop ((bitsOfSymbols symbols).length - few.length) = few := by
    conv => lhs; rw [hbits]
    rw [List.length_append, Nat.add_sub_cancel, List.drop_left]
  rw [hdrop] at hzero
  have hreplicate : few = List.replicate few.length false :=
    List.eq_replicate_iff.2 ⟨rfl, fun b hb => hzero b hb⟩
  calc symbolsOfBytes (bytesOfSymbols symbols)
      = symbolsOfBits (Bytes.bits (Bytes.ofBits (bitsOfSymbols symbols)) ++ few) := by
        rw [hreplicate, symbolsOfBits_append (by omega)]
        rfl
    _ = symbols := by rw [← hbits, symbolsOfBits_bitsOfSymbols]

/-! ## Texts -/

theorem Symbol.char_ne_separator : ∀ s : Symbol, s.char ≠ '1' := by
  decide

theorem Symbol.isUpper_char : ∀ s : Symbol, s.char.isUpper = false := by
  decide

theorem Symbol.char_of_ofChar? {c : Char} {s : Symbol} (h : Symbol.ofChar? c = some s) :
    s.char = c := by
  obtain ⟨n, hn, rfl⟩ := Option.map_eq_some_iff.1 h
  obtain ⟨hlt, hc, -⟩ := List.idxOf?_eq_some_iff.1 hn
  have hsize : n < 2 ^ 5 := hlt
  rw [Symbol.char, BitVec.toNat_ofNat, Nat.mod_eq_of_lt hsize, List.getD_eq_getElem?_getD,
    List.getElem?_eq_getElem hlt, Option.getD_some, hc]

/-- The last separator is the one that a text is cut at. -/
theorem cut_append {label data : List Char} (h : ∀ c ∈ data, c ≠ '1') :
    cut (label ++ '1' :: data) = (some label, data) := by
  have hback : (label ++ '1' :: data).reverse = data.reverse ++ '1' :: label.reverse := by simp
  have hdata : ∀ c ∈ data.reverse, decide (c ≠ '1') = true := fun c hc =>
    decide_eq_true (h c (List.mem_reverse.1 hc))
  simp only [cut, hback, List.takeWhile_append_of_pos hdata, List.dropWhile_append_of_pos hdata]
  simp

theorem eq_of_cut {text label data : List Char} (h : cut text = (some label, data)) :
    text = label ++ '1' :: data := by
  have hback := List.takeWhile_append_dropWhile (p := (· ≠ '1')) (l := text.reverse)
  simp only [cut] at h
  split at h
  · cases h
  · next c back hdrop =>
    cases h
    have hhead := List.head_dropWhile_not (· ≠ '1') (l := text.reverse)
      (by rw [hdrop]; exact List.cons_ne_nil _ _)
    have hc : c = '1' := by simpa only [hdrop, List.head_cons, decide_eq_false_iff_not,
      Decidable.not_not] using hhead
    rw [hdrop, hc] at hback
    calc text
        = (text.reverse.takeWhile (· ≠ '1') ++ '1' :: back).reverse := by
          rw [hback, List.reverse_reverse]
      _ = back.reverse ++ '1' :: (text.reverse.takeWhile (· ≠ '1')).reverse := by
          rw [List.reverse_append, List.reverse_cons, List.append_assoc]
          rfl

theorem readSymbols_map_char (symbols : List Symbol) :
    readSymbols (symbols.map Symbol.char) = .ok symbols := by
  have hgood :
      (symbols.map Symbol.char).reverse.find? (fun c => (Symbol.ofChar? c).isNone) = none := by
    rw [List.find?_eq_none]
    intro c hc
    obtain ⟨s, -, rfl⟩ := List.mem_map.1 (List.mem_reverse.1 hc)
    simp [Symbol.ofChar?_char]
  have hread : (symbols.map Symbol.char).filterMap Symbol.ofChar? = symbols := by
    have hinverse : Symbol.ofChar? ∘ Symbol.char = some := funext Symbol.ofChar?_char
    rw [List.filterMap_map, hinverse, List.filterMap_some]
  simp only [readSymbols, hgood, hread]

theorem map_char_of_readSymbols {data : List Char} {symbols : List Symbol}
    (h : readSymbols data = .ok symbols) : symbols.map Symbol.char = data := by
  rw [readSymbols] at h
  split at h
  · cases h
  · next hgood =>
    cases h
    have hsome : ∀ c ∈ data, (Symbol.ofChar? c).isSome := by
      intro c hc
      rw [Option.isSome_iff_ne_none]
      simpa using List.find?_eq_none.1 hgood c (List.mem_reverse.2 hc)
    clear hgood
    induction data with
    | nil => rfl
    | cons c rest ih =>
        obtain ⟨hc, hrest⟩ := List.forall_mem_cons.1 hsome
        obtain ⟨s, hs⟩ := Option.isSome_iff_exists.1 hc
        rw [List.filterMap_cons_some hs, List.map_cons, Symbol.char_of_ofChar? hs, ih hrest]

/-- A text is read as a human-readable part and symbols exactly if they write it and the part may be
one. -/
theorem parse_eq_ok_iff {text label : List Char} {symbols : List Symbol} :
    parse text = .ok (label, symbols) ↔
      text = label ++ '1' :: symbols.map Symbol.char ∧ label ≠ [] ∧
        (String.ofList label).utf8ByteSize ≤ labelLimit ∧ checkLabel label = .ok () := by
  constructor
  · intro h
    rw [parse] at h
    cases hread : readSymbols (cut text).2 with
    | error e => simp [hread, bind, Except.bind] at h
    | ok found =>
        simp only [hread, bind, Except.bind] at h
        split at h
        · cases h
        · cases h
        · next part hpart hcut =>
          split at h
          · cases h
          · next hsize =>
            cases hcheck : checkLabel part with
            | error e => simp [hcheck] at h
            | ok checked =>
                rw [hcheck] at h
                cases h
                refine ⟨?_, hpart, Nat.le_of_not_lt hsize, hcheck⟩
                rw [map_char_of_readSymbols hread]
                exact eq_of_cut (Prod.ext hcut rfl)
  · rintro ⟨rfl, hlabel, hsize, hcheck⟩
    have hdata : ∀ c ∈ symbols.map Symbol.char, c ≠ '1' := by
      intro c hc
      obtain ⟨s, -, rfl⟩ := List.mem_map.1 hc
      exact s.char_ne_separator
    rw [parse, cut_append hdata]
    cases label with
    | nil => exact absurd rfl hlabel
    | cons c rest =>
        simp only [readSymbols_map_char, bind, Except.bind, hcheck, if_neg (Nat.not_lt.2 hsize)]

end AnchoredDid.Bech32
