import Mathlib.Algebra.Group.Nat.Defs
import Mathlib.Data.List.Induction
import AnchoredDid.Key

/-!
# Base 58 is read as it was written

A byte string is its zeros and the number behind them. The zeros are counted apart, and the number's
digits begin with one that is not zero, so neither is taken for the other
(`Base58.decodeChars?_encodeChars`). Multibase texts and signatures make the round trip by it.
-/

namespace AnchoredDid

namespace Base58

theorem value?_digit {n : Nat} (h : n < 58) : value? (digit n) = some n := by
  have hsmall : ∀ n : Fin 58, value? (digit n) = some n.val := by decide
  exact hsmall ⟨n, h⟩

theorem ofDigits_append (digits : List Nat) (d : Nat) :
    ofDigits (digits ++ [d]) = 58 * ofDigits digits + d := by
  simp [ofDigits]

theorem ofDigits_digitsOf (n : Nat) : ofDigits (digitsOf n) = n := by
  fun_induction digitsOf n with
  | case1 => rfl
  | case2 n h ih =>
      rw [ofDigits_append, ih]
      omega

theorem lt_of_mem_digitsOf {n d : Nat} (h : d ∈ digitsOf n) : d < 58 := by
  fun_induction digitsOf n with
  | case1 => cases h
  | case2 n hn ih =>
      rcases List.mem_append.1 h with h | h
      · exact ih h
      · rw [List.mem_singleton.1 h]
        exact Nat.mod_lt _ (by decide)

/-- A number is written without leading zeros. -/
theorem head?_digitsOf (n : Nat) : (digitsOf n).head? ≠ some 0 := by
  fun_induction digitsOf n with
  | case1 => simp
  | case2 n hn ih =>
      cases hdigits : digitsOf (n / 58) with
      | nil =>
          have hquotient : n / 58 = 0 := by
            rw [← ofDigits_digitsOf (n / 58), hdigits]
            rfl
          have hremainder : n % 58 ≠ 0 := by omega
          simpa using hremainder
      | cons d rest =>
          rw [hdigits] at ih
          simpa using ih

theorem toNat_append (bytes : Bytes) (b : UInt8) :
    Bytes.toNat (bytes ++ [b]) = bytes.toNat * 256 + b.toNat := by
  simp [Bytes.toNat]

theorem bytesOf_mul_add {n : Nat} {b : UInt8} (h : n * 256 + b.toNat ≠ 0) :
    bytesOf (n * 256 + b.toNat) = bytesOf n ++ [b] := by
  have hb := b.toNat_lt
  have hquotient : (n * 256 + b.toNat) / 256 = n := by omega
  have hbyte : UInt8.ofNat (n * 256 + b.toNat) = b := by
    apply UInt8.toNat_inj.1
    rw [UInt8.toNat_ofNat']
    omega
  rw [bytesOf, if_neg h, hquotient, hbyte]

/-- Only the zeros at the start are not in the number. -/
theorem bytesOf_toNat (bytes : Bytes) :
    bytesOf bytes.toNat = bytes.dropWhile (· = 0) ∧
      (bytes.toNat = 0 ↔ bytes.dropWhile (· = 0) = []) := by
  induction bytes using List.reverseRecOn with
  | nil =>
      refine ⟨?_, by simp [Bytes.toNat]⟩
      rw [Bytes.toNat, List.foldl_nil, bytesOf]
      rfl
  | append_singleton bytes b ih =>
      obtain ⟨hbytes, hzero⟩ := ih
      rw [toNat_append, List.dropWhile_append]
      by_cases hall : bytes.dropWhile (· = 0) = []
      · have hnumber := hzero.2 hall
        rw [hnumber, hall]
        by_cases hb : b = 0
        · subst hb
          refine ⟨?_, by simp⟩
          rw [bytesOf]
          simp
        · have hpositive : b.toNat ≠ 0 := fun h => hb (UInt8.toNat_inj.1 h)
          have hwritten := bytesOf_mul_add (n := 0) (b := b) (by omega)
          rw [hwritten, bytesOf]
          simp [hb, hpositive]
      · have hnumber := mt hzero.1 hall
        rw [bytesOf_mul_add (by omega), hbytes, if_neg (by simpa using hall)]
        refine ⟨rfl, ?_⟩
        simp only [List.append_eq_nil_iff, List.cons_ne_nil, and_false, iff_false]
        omega

theorem mapM_digit {digits : List Nat} (h : ∀ d ∈ digits, d < 58) :
    (digits.map digit).mapM value? = some digits := by
  induction digits with
  | nil => rfl
  | cons d rest ih =>
      obtain ⟨hd, hrest⟩ := List.forall_mem_cons.1 h
      simp [List.mapM_cons, value?_digit hd, ih hrest]

/-- The marks for leading zeros end where the number begins. -/
theorem takeWhile_encodeChars (count n : Nat) :
    ((List.replicate count '1' ++ (digitsOf n).map digit).takeWhile (· = '1')) =
      List.replicate count '1' := by
  have hnumber : ((digitsOf n).map digit).takeWhile (· = '1') = [] := by
    have hfirst := head?_digitsOf n
    have hsmall := @lt_of_mem_digitsOf n
    cases hdigits : digitsOf n with
    | nil => rfl
    | cons d rest =>
        rw [hdigits] at hfirst hsmall
        have hd : digit d ≠ '1' := by
          intro hmark
          have hvalue := value?_digit (hsmall List.mem_cons_self)
          rw [hmark] at hvalue
          cases hvalue
          exact hfirst rfl
        simp [hd]
  rw [List.takeWhile_append, hnumber]
  simp

/-- The zeros at the start of a byte string are as many zero bytes. -/
theorem replicate_length_takeWhile (bytes : Bytes) :
    List.replicate (bytes.takeWhile (· = 0)).length 0 = bytes.takeWhile (· = 0) := by
  refine (List.eq_replicate_iff.2 ⟨rfl, ?_⟩).symm
  intro b hb
  simpa using List.all_eq_true.1 List.all_takeWhile b hb

theorem decodeChars?_encodeChars (bytes : Bytes) :
    decodeChars? (encodeChars bytes) = some bytes := by
  have hdigits : (encodeChars bytes).mapM value? =
      some (List.replicate (bytes.takeWhile (· = 0)).length 0 ++ digitsOf bytes.toNat) := by
    have hmarks : List.replicate (bytes.takeWhile (· = 0)).length '1' =
        (List.replicate (bytes.takeWhile (· = 0)).length 0).map digit := by
      rw [List.map_replicate]
      rfl
    rw [encodeChars, hmarks, ← List.map_append]
    refine mapM_digit (List.forall_mem_append.2 ⟨?_, fun d => lt_of_mem_digitsOf⟩)
    intro d hd
    rw [List.eq_of_mem_replicate hd]
    decide
  have hnumber : ofDigits (List.replicate (bytes.takeWhile (· = 0)).length 0 ++
      digitsOf bytes.toNat) = bytes.toNat := by
    rw [ofDigits, List.foldl_append]
    have hzeros : ∀ count, (List.replicate count 0).foldl (fun n d => 58 * n + d) 0 = 0 := by
      intro count
      induction count with
      | zero => rfl
      | succ count ih => simpa [List.replicate_succ] using ih
    rw [hzeros]
    exact ofDigits_digitsOf bytes.toNat
  simp only [decodeChars?, hdigits, Option.bind_eq_bind, Option.bind_some, hnumber]
  rw [encodeChars, takeWhile_encodeChars, List.length_replicate, (bytesOf_toNat bytes).1,
    replicate_length_takeWhile, List.takeWhile_append_dropWhile]

/-! ## The first digit -/

/-- A number of base 58 begins with what is left of it once the other digits are cut off. -/
theorem head?_digitsOf_of_bounds {n k : Nat} (lower : 58 ^ k ≤ n) (upper : n < 58 ^ (k + 1)) :
    (digitsOf n).head? = some (n / 58 ^ k) := by
  have hpositive : n ≠ 0 := Nat.ne_zero_of_lt (Nat.lt_of_lt_of_le (Nat.pow_pos (by decide)) lower)
  rw [digitsOf, if_neg hpositive, List.head?_append]
  induction k generalizing n with
  | zero =>
      have hsmall : n < 58 := upper
      simp [digitsOf, Nat.div_eq_of_lt hsmall, Nat.mod_eq_of_lt hsmall]
  | succ k ih =>
      have hlower : 58 ^ k ≤ n / 58 := (Nat.le_div_iff_mul_le (by decide)).2 lower
      have hupper : n / 58 < 58 ^ (k + 1) := Nat.div_lt_of_lt_mul (by rwa [Nat.mul_comm])
      have hquotient : n / 58 ≠ 0 :=
        Nat.ne_zero_of_lt (Nat.lt_of_lt_of_le (Nat.pow_pos (by decide)) hlower)
      rw [digitsOf, if_neg hquotient, List.head?_append, ih hlower hupper hquotient, Option.some_or,
        Nat.div_div_eq_div_mul, Nat.pow_succ, Nat.mul_comm]

theorem toNat_cons_bounds (b : UInt8) (rest : Bytes) :
    b.toNat * 256 ^ rest.length ≤ Bytes.toNat (b :: rest) ∧
      Bytes.toNat (b :: rest) < (b.toNat + 1) * 256 ^ rest.length := by
  induction rest using List.reverseRecOn with
  | nil => simp [Bytes.toNat]
  | append_singleton rest last ih =>
      have hlast := last.toNat_lt
      rw [← List.cons_append, toNat_append, List.length_append, List.length_singleton, Nat.pow_succ,
        ← Nat.mul_assoc, ← Nat.mul_assoc]
      omega

theorem head?_encodeChars_zero (rest : Bytes) : (encodeChars (0 :: rest)).head? = some '1' := by
  simp [encodeChars, List.replicate_succ]

/-- The first byte of a byte string bounds the first digit. -/
theorem head?_encodeChars {b : UInt8} (rest : Bytes) {k least bound : Nat} (hb : b ≠ 0)
    (hleast : 0 < least) (hbound : bound ≤ 58)
    (lower : least * 58 ^ k ≤ b.toNat * 256 ^ rest.length)
    (upper : (b.toNat + 1) * 256 ^ rest.length ≤ bound * 58 ^ k) :
    ∃ d, least ≤ d ∧ d < bound ∧ (encodeChars (b :: rest)).head? = some (digit d) := by
  obtain ⟨hlower, hupper⟩ := toNat_cons_bounds b rest
  have hbase : 0 < 58 ^ k := Nat.pow_pos (by decide)
  have hfirst : (digitsOf (Bytes.toNat (b :: rest))).head? =
      some (Bytes.toNat (b :: rest) / 58 ^ k) := by
    refine head?_digitsOf_of_bounds ?_ ?_
    · exact Nat.le_trans (Nat.le_mul_of_pos_left _ hleast) (Nat.le_trans lower hlower)
    · rw [Nat.pow_succ, Nat.mul_comm]
      exact Nat.lt_of_lt_of_le hupper (Nat.le_trans upper (Nat.mul_le_mul_right _ hbound))
  refine ⟨Bytes.toNat (b :: rest) / 58 ^ k, ?_, ?_, ?_⟩
  · exact (Nat.le_div_iff_mul_le hbase).2 (Nat.le_trans lower hlower)
  · exact (Nat.div_lt_iff_lt_mul hbase).2 (Nat.lt_of_lt_of_le hupper upper)
  · simp [encodeChars, hb, hfirst]

/-! ## The checked form -/

theorem length_checksum (bytes : Bytes) : (checksum bytes).length = 4 := by
  simp [checksum]

theorem decodeChecked?_encodeChecked (bytes : Bytes) :
    decodeChecked? (encodeChecked bytes) = some bytes := by
  have hdecode : decode? (encodeChecked bytes) = some (bytes ++ checksum bytes) := by
    rw [decode?, encodeChecked, encode, String.toList_ofList, decodeChars?_encodeChars]
  have hlength : (bytes ++ checksum bytes).length = bytes.length + 4 := by
    rw [List.length_append, length_checksum]
  simp [decodeChecked?, hdecode, hlength]

theorem mem_alphabet_of_mem_encodeChars {bytes : Bytes} {c : Char} (h : c ∈ encodeChars bytes) :
    c ∈ alphabet := by
  rcases List.mem_append.1 h with h | h
  · rw [List.eq_of_mem_replicate h]
    decide
  · obtain ⟨d, hd, rfl⟩ := List.mem_map.1 h
    have hsmall : ∀ n : Fin 58, digit n ∈ alphabet := by decide
    exact hsmall ⟨d, lt_of_mem_digitsOf hd⟩

end Base58

@[simp] theorem Multibase.decode_encode (bytes : Bytes) : decode (encode bytes) = .ok bytes := by
  simp [decode, encode, Base58.decodeChars?_encodeChars]

theorem PublicKey.ofBytes?_bytes (key : PublicKey) : ofBytes? key.bytes = some key :=
  dif_pos key.onCurve

/-- A key is read back from its multikey. -/
theorem PublicKey.ofMultikey_toMultikey (key : PublicKey) :
    ofMultikey key.toMultikey = .ok key := by
  simp [ofMultikey, toMultikey, multikeyMark, ofBytes?_bytes]

@[simp] theorem Signature.ofMultibase_toMultibase (s : Signature) :
    ofMultibase s.toMultibase = .ok s := by
  simp [ofMultibase, toMultibase, s.size]

end AnchoredDid
