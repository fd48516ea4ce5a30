/-
**AES-256-GCM of the runtime is that of the standard.**

* `gcmIncrement_eq`, `gcmCrypt_eq` — counter mode.
-/

import FoundationLang.Library.Gcm
import FoundationLang.Crypto.Gcm

namespace FoundationLang.Crypto

open Library Library.Gcm

/-! ### The product of blocks -/

theorem and_one_eq (b : UInt8) : b &&& 1 = if b.toNat.testBit 0 then 1 else 0 :=
  @forall_byte (fun b => b &&& 1 = if b.toNat.testBit 0 then 1 else 0) (by decide +kernel) b

theorem shiftRight_digits (carry : Bool) (b : UInt8) :
    digits 8 (b >>> 1 ||| (if carry then 1 else 0 : UInt8) <<< 7).toNat = carry :: digits 7 (b.toNat / 2) := by
  cases carry
  · exact @forall_byte (fun b => digits 8 (b >>> 1 ||| (0 : UInt8) <<< 7).toNat =
      false :: digits 7 (b.toNat / 2)) (by decide +kernel) b
  · exact @forall_byte (fun b => digits 8 (b >>> 1 ||| (1 : UInt8) <<< 7).toNat =
      true :: digits 7 (b.toNat / 2)) (by decide +kernel) b

theorem gcmShiftRight_eq (carry : Bool) (bytes : List UInt8) :
    bits (gcmShiftRight (if carry then 1 else 0) bytes) = (carry :: bits bytes).dropLast := by
  induction bytes generalizing carry with
  | nil => rfl
  | cons b bytes ih =>
    have carried : (b.toNat.testBit 0 :: bits bytes) ≠ [] := List.cons_ne_nil _ _
    rw [gcmShiftRight, bits_cons, shiftRight_digits, and_one_eq, ih, bits_cons, digits_succ 7,
      List.append_assoc, List.singleton_append, ← List.cons_append,
      List.dropLast_append_of_ne_nil carried]

theorem gcmShiftRight_length (carry : UInt8) (bytes : List UInt8) :
    (gcmShiftRight carry bytes).length = bytes.length := by
  induction bytes generalizing carry with
  | nil => rfl
  | cons b bytes ih => rw [gcmShiftRight, List.length_cons, ih, List.length_cons]

theorem zipWith_xor_zeros {bytes : List UInt8} {n : ℕ} (length : bytes.length = n) :
    List.zipWith (· ^^^ ·) bytes (List.replicate n 0) = bytes := by
  induction bytes generalizing n with
  | nil => rfl
  | cons b bytes ih =>
    obtain rfl := length
    rw [List.length_cons, List.replicate_succ, List.zipWith_cons_cons, ih rfl, UInt8.xor_zero]

theorem getLast_bits {block : List UInt8} (sized : block.length = 16) :
    (bits block).getLast? = some ((block.getD 15 0).toNat.testBit 0) := by
  rw [List.getLast?_eq_getElem?, bits_length, sized]
  have read := bits_getD block 127
  rw [List.getD_eq_getElem?_getD, List.getElem?_eq_getElem (by rw [bits_length, sized]; decide),
    Option.getD_some] at read
  rw [List.getElem?_eq_getElem (by rw [bits_length, sized]; decide)]
  exact congrArg some read

theorem gcmFactor_eq {factor : List UInt8} (sized : factor.length = 16) :
    bits (gcmFactor factor) = shift (bits factor) ∧ (gcmFactor factor).length = 16 := by
  have half : bits (gcmShiftRight 0 factor) = _ := gcmShiftRight_eq false factor
  have length := (gcmShiftRight_length 0 factor).trans sized
  have dropped : (false :: bits factor).dropLast = false :: (bits factor).dropLast := by
    refine List.dropLast_cons_of_ne_nil fun nothing => ?_
    have := congrArg List.length nothing
    rw [bits_length, sized] at this
    cases this
  unfold gcmFactor shift
  rw [getLast_bits sized, and_one_eq]
  cases (factor.getD 15 0).toNat.testBit 0
  · rw [if_neg (by decide), if_neg (by decide), ← dropped]
    exact ⟨half, length⟩
  · rw [if_pos (by decide), if_pos rfl, ← dropped]
    generalize gcmShiftRight 0 factor = shifted at half length
    refine ⟨?_, by rw [List.length_set, length]⟩
    have reduced : shifted.set 0 (shifted.getD 0 0 ^^^ 0xe1) =
        List.zipWith (· ^^^ ·) shifted (0xe1 :: List.replicate 15 0) := by
      obtain _ | ⟨_, _⟩ := shifted
      · cases length
      · rw [List.set_cons_zero, List.getD_cons_zero, List.zipWith_cons_cons,
          zipWith_xor_zeros (Nat.succ.inj length)]
    rw [reduced, bits_zipWith_xor, ← half]
    rfl

theorem tested_bit (value : List UInt8) (p : ℕ) :
    (value.getD (p / 8) 0 &&& (0x80 >>> UInt8.ofNat (p % 8)) ≠ 0) ↔
      (bits value).getD p false = true := by
  have tests : ∀ (p : Fin 8) (b : Fin 256),
      (UInt8.ofNat b &&& (0x80 >>> UInt8.ofNat p) ≠ 0) ↔
        (b : ℕ).testBit (7 - p) = true := by decide +kernel
  have test := tests ⟨p % 8, Nat.mod_lt _ (by decide)⟩
    ⟨(value.getD (p / 8) 0).toNat, (value.getD (p / 8) 0).toNat_lt⟩
  rw [bits_getD]
  rwa [UInt8.ofNat_toNat] at test

theorem gcmMultiplyStep_eq (value : List UInt8) {s : List UInt8 × List UInt8} (p : ℕ)
    (sized : s.1.length = 16) (factor : s.2.length = 16) :
    Prod.map bits bits (gcmMultiplyStep value s p) =
        multiplyStep (Prod.map bits bits s) ((bits value).getD p false) ∧
      (gcmMultiplyStep value s p).1.length = 16 ∧
      (gcmMultiplyStep value s p).2.length = 16 := by
  obtain ⟨shifted, length⟩ := gcmFactor_eq factor
  unfold gcmMultiplyStep multiplyStep
  by_cases tested : (bits value).getD p false = true
  · rw [if_pos ((tested_bit value p).mpr tested), if_pos tested, Prod.map_apply, shifted,
      bits_zipWith_xor]
    refine ⟨rfl, ?_, length⟩
    rw [List.length_zipWith, sized, factor]
    rfl
  · rw [if_neg fun bit => tested ((tested_bit value p).mp bit), if_neg tested, Prod.map_apply, shifted]
    exact ⟨rfl, sized, length⟩

theorem gcmMultiply_rounds (value : List UInt8) (places : List ℕ) {s : List UInt8 × List UInt8}
    (sized : s.1.length = 16) (factor : s.2.length = 16) :
    Prod.map bits bits (places.foldl (gcmMultiplyStep value) s) =
        (places.map fun place => (bits value).getD place false).foldl multiplyStep
          (Prod.map bits bits s) ∧
      (places.foldl (gcmMultiplyStep value) s).1.length = 16 := by
  induction places generalizing s with
  | nil => exact ⟨rfl, sized⟩
  | cons place places ih =>
    obtain ⟨step, x, y⟩ := gcmMultiplyStep_eq value place sized factor
    rw [List.foldl_cons, List.map_cons, List.foldl_cons, ← step]
    exact ih x y

/-- **The product of two blocks.** -/
theorem gcmMultiply_eq {value hash : List UInt8} (sized : value.length = 16) (key : hash.length = 16) :
    bits (gcmMultiply value hash) = multiply (bits value) (bits hash) ∧
      (gcmMultiply value hash).length = 16 := by
  have all : ((List.range 128).map fun place => (bits value).getD place false) = bits value := by
    refine List.ext_getElem ?_ fun place x y => ?_
    · rw [List.length_map, List.length_range, bits_length, sized]
    · rw [List.getElem_map, List.getElem_range, List.getD_eq_getElem?_getD,
        List.getElem?_eq_getElem y, Option.getD_some]
  obtain ⟨rounds, length⟩ := gcmMultiply_rounds value (List.range 128)
    (show (List.replicate 16 0, hash).1.length = 16 from rfl) key
  refine ⟨?_, length⟩
  rw [all] at rounds
  have zero : bits (List.replicate 16 0) = zeroBlock := bits_replicate 16
  unfold gcmMultiply multiply
  rw [← zero]
  exact congrArg Prod.fst rounds

/-! ### The tag -/

theorem gcmBlock_eq {s block hash : List UInt8} (sized : s.length = 16)
    (full : block.length = 16) (key : hash.length = 16) :
    bits (gcmBlock s block hash) = ghashStep (bits hash) (bits s) (bits block) ∧
      (gcmBlock s block hash).length = 16 := by
  have length : (List.zipWith (· ^^^ ·) s block).length = 16 := by
    rw [List.length_zipWith, sized, full]
    rfl
  obtain ⟨product, length'⟩ := gcmMultiply_eq length key
  refine ⟨?_, length'⟩
  unfold gcmBlock ghashStep
  rw [product, bits_zipWith_xor]
  rfl

/-- **The hash of data**, whose last block is completed. -/
theorem gcmData_eq {s : List UInt8} (data : List UInt8) {hash : List UInt8}
    (sized : s.length = 16) (key : hash.length = 16) :
    bits (gcmData s data hash) =
        (blocks 128 (pad (bits data))).foldl (ghashStep (bits hash)) (bits s) ∧
      (gcmData s data hash).length = 16 := by
  induction s, data using gcmData.induct hash with
  | case1 s data long ih =>
    have full : (data.take 16).length = 16 := List.length_take_of_le long
    have bitsFull : (bits (data.take 16)).length = 128 := by rw [bits_length, full]
    obtain ⟨block, length⟩ := gcmBlock_eq sized full key
    have split : bits data = bits (data.take 16) ++ bits (data.drop 16) := by
      rw [← bits_append, List.take_append_drop]
    rw [gcmData, if_pos long, split, pad_block bitsFull, blocks_cons (by decide) bitsFull,
      List.foldl_cons, ← block]
    exact ih length
  | case2 s data short some' =>
    have full : (data ++ List.replicate (16 - data.length) 0).length = 16 := by
      rw [List.length_append, List.length_replicate]
      omega
    obtain ⟨block, length⟩ := gcmBlock_eq sized full key
    have padded : bits (data ++ List.replicate (16 - data.length) 0) = pad (bits data) := by
      rw [pad_short, bits_append, bits_replicate, bits_length, Nat.mul_sub]
      · intro nothing
        have := congrArg List.length nothing
        rw [bits_length, List.length_nil] at this
        omega
      · rw [bits_length]
        omega
    have bitsFull : (pad (bits data)).length = 128 := by rw [← padded, bits_length, full]
    rw [gcmData, if_neg short, if_pos some', block, padded, blocks_full (by decide) bitsFull]
    exact ⟨rfl, length⟩
  | case3 s data short nothing =>
    obtain rfl : data = [] := List.length_eq_zero_iff.mp (not_not.mp nothing)
    rw [gcmData, if_neg short, if_neg nothing, bits_nil, pad_nil, blocks_nil (by decide)]
    exact ⟨rfl, sized⟩

theorem storeU64Be_eq (value : UInt64) : bits (storeU64Be value) = digits 64 value.toNat := by
  have split : digits 64 value.toNat = digits 8 (value.toNat / 2 ^ 56) ++
      (digits 8 (value.toNat / 2 ^ 48) ++ (digits 8 (value.toNat / 2 ^ 40) ++
      (digits 8 (value.toNat / 2 ^ 32) ++ (digits 8 (value.toNat / 2 ^ 24) ++
      (digits 8 (value.toNat / 2 ^ 16) ++ (digits 8 (value.toNat / 2 ^ 8) ++
      digits 8 value.toNat)))))) := by
    rw [digits_add 8 56, digits_add 8 48, digits_add 8 40, digits_add 8 32, digits_add 8 24,
      digits_add 8 16, digits_add 8 8]
  have byte : ∀ place < 8, digits 8 (value >>> UInt64.ofNat (place * 8)).toUInt8.toNat =
      digits 8 (value.toNat / 2 ^ (place * 8)) := by
    intro place small
    have count : (UInt64.ofNat (place * 8)).toNat = place * 8 :=
      UInt64.toNat_ofNat_of_lt' (Nat.lt_of_lt_of_le (Nat.mul_lt_mul_of_pos_right small (by decide))
        (by decide))
    rw [UInt64.toNat_toUInt8, UInt64.toNat_shiftRight, count, digits_mod,
      Nat.mod_eq_of_lt (show place * 8 < 64 by omega), Nat.shiftRight_eq_div_pow]
  rw [split]
  show digits 8 (value >>> UInt64.ofNat (7 * 8)).toUInt8.toNat ++
    (digits 8 (value >>> UInt64.ofNat (6 * 8)).toUInt8.toNat ++
    (digits 8 (value >>> UInt64.ofNat (5 * 8)).toUInt8.toNat ++
    (digits 8 (value >>> UInt64.ofNat (4 * 8)).toUInt8.toNat ++
    (digits 8 (value >>> UInt64.ofNat (3 * 8)).toUInt8.toNat ++
    (digits 8 (value >>> UInt64.ofNat (2 * 8)).toUInt8.toNat ++
    (digits 8 (value >>> UInt64.ofNat (1 * 8)).toUInt8.toNat ++
    (digits 8 (value >>> UInt64.ofNat (0 * 8)).toUInt8.toNat ++ []))))))) = _
  rw [byte 7 (by decide), byte 6 (by decide), byte 5 (by decide), byte 4 (by decide),
    byte 3 (by decide), byte 2 (by decide), byte 1 (by decide), byte 0 (by decide), List.append_nil,
    Nat.zero_mul, Nat.pow_zero, Nat.div_one]

theorem storeU64Be_length (data : List UInt8) :
    bits (storeU64Be (UInt64.ofNat data.length * 8)) = digits 64 (bits data).length := by
  have product : (UInt64.ofNat data.length * 8).toNat = (bits data).length % 2 ^ 64 := by
    rw [UInt64.toNat_mul, UInt64.toNat_ofNat', bits_length, Nat.mul_comm 8]
    exact Nat.mod_mul_mod ..
  rw [storeU64Be_eq, product, digits_mod]

/-- **The tag**, with the hash key and the mask that the caller has computed. -/
theorem gcmTag_eq (associated ciphertext : List UInt8) {hash : List UInt8} (mask : List UInt8)
    (key : hash.length = 16) :
    bits (gcmTag associated ciphertext hash mask) =
        add (ghash (bits hash) (pad (bits associated) ++ pad (bits ciphertext) ++
          (digits 64 (bits associated).length ++ digits 64 (bits ciphertext).length))) (bits mask) ∧
      (gcmTag associated ciphertext hash mask).length = min 16 mask.length := by
  have zero : bits (List.replicate 16 0) = zeroBlock := bits_replicate 16
  obtain ⟨x, length⟩ := gcmData_eq associated (List.length_replicate (n := 16) (a := 0)) key
  obtain ⟨y, length'⟩ := gcmData_eq ciphertext length key
  have full : (storeU64Be (UInt64.ofNat associated.length * 8) ++
    storeU64Be (UInt64.ofNat ciphertext.length * 8)).length = 16 := rfl
  obtain ⟨third, length''⟩ := gcmBlock_eq length' full key
  have bitsFull : (digits 64 (bits associated).length ++ digits 64 (bits ciphertext).length).length =
      128 := by
    rw [List.length_append, digits_length, digits_length]
  unfold gcmTag ghash
  rw [bits_zipWith_xor, third, y, x, bits_append, storeU64Be_length, storeU64Be_length, zero,
    blocks_append (by decide) (by
      rw [List.length_append]
      exact Nat.dvd_add (pad_length _) (pad_length _)),
    blocks_append (by decide) (pad_length _), blocks_full (by decide) bitsFull,
    List.foldl_append, List.foldl_append, List.length_zipWith, length'']
  exact ⟨rfl, rfl⟩

/-! ### Counter mode -/

theorem number_four (a b c d : UInt8) :
    number (bits [a, b, c, d]) = a.toNat * 16777216 + b.toNat * 65536 + c.toNat * 256 + d.toNat := by
  rw [number_bits_cons, number_bits_cons, number_bits_cons, number_bits_cons, bits_nil]
  show a.toNat * 2 ^ 24 + (b.toNat * 2 ^ 16 + (c.toNat * 2 ^ 8 + (d.toNat * 2 ^ 0 + 0))) = _
  omega

theorem toNat_succ (b : UInt8) : (b + 1).toNat = (b.toNat + 1) % 256 :=
  UInt8.toNat_add ..

theorem succ_eq_zero (b : UInt8) : b + 1 = 0 ↔ b.toNat = 255 := by
  rw [← UInt8.toNat_inj, toNat_succ, UInt8.toNat_zero]
  have := b.toNat_lt
  omega

/-- The last bytes of a counter block, and the bytes that the loop leaves there. -/
theorem gcmIncrement_last {a b c d a' b' c' d' : UInt8}
    (next : number (bits [a', b', c', d']) = (number (bits [a, b, c, d]) + 1) % 2 ^ 32) :
    bits [a', b', c', d'] = digits 32 ((number (bits [a, b, c, d]) + 1) % 2 ^ 32) := by
  rw [← next]
  exact (digits_number_bits [a', b', c', d']).symm

theorem gcmIncrement_eq : ∀ {counter : List UInt8}, counter.length = 16 →
    bits (gcmIncrement counter) = inc32 (bits counter) ∧ (gcmIncrement counter).length = 16
  | [i, j, k, l, m, n, o, p, q, r, s, t, a, b, c, d], _ => by
    have front : (bits [i, j, k, l, m, n, o, p, q, r, s, t]).length = 96 := bits_length _
    have split : ∀ a b c d : UInt8, bits [i, j, k, l, m, n, o, p, q, r, s, t, a, b, c, d] =
        bits [i, j, k, l, m, n, o, p, q, r, s, t] ++ bits [a, b, c, d] :=
      fun a b c d => bits_append [i, j, k, l, m, n, o, p, q, r, s, t] [a, b, c, d]
    have boundA := a.toNat_lt
    have boundB := b.toNat_lt
    have boundC := c.toNat_lt
    have boundD := d.toNat_lt
    unfold inc32
    rw [split, List.take_left' front, List.drop_left' front]
    show bits (if d + 1 ≠ 0 then [i, j, k, l, m, n, o, p, q, r, s, t, a, b, c, d + 1]
      else if c + 1 ≠ 0 then [i, j, k, l, m, n, o, p, q, r, s, t, a, b, c + 1, d + 1]
      else if b + 1 ≠ 0 then [i, j, k, l, m, n, o, p, q, r, s, t, a, b + 1, c + 1, d + 1]
      else if a + 1 ≠ 0 then [i, j, k, l, m, n, o, p, q, r, s, t, a + 1, b + 1, c + 1, d + 1]
      else [i, j, k, l, m, n, o, p, q, r, s, t, a + 1, b + 1, c + 1, d + 1]) = _ ∧
      (if d + 1 ≠ 0 then [i, j, k, l, m, n, o, p, q, r, s, t, a, b, c, d + 1]
      else if c + 1 ≠ 0 then [i, j, k, l, m, n, o, p, q, r, s, t, a, b, c + 1, d + 1]
      else if b + 1 ≠ 0 then [i, j, k, l, m, n, o, p, q, r, s, t, a, b + 1, c + 1, d + 1]
      else if a + 1 ≠ 0 then [i, j, k, l, m, n, o, p, q, r, s, t, a + 1, b + 1, c + 1, d + 1]
      else [i, j, k, l, m, n, o, p, q, r, s, t, a + 1, b + 1, c + 1, d + 1]).length = 16
    rw [ite_self]
    -- A byte that becomes zero hands the carry to the byte before it.
    by_cases zeroD : d + 1 ≠ 0
    · rw [if_pos zeroD, split]
      refine ⟨congrArg _ (gcmIncrement_last ?_), rfl⟩
      rw [ne_eq, succ_eq_zero] at zeroD
      rw [number_four, number_four, toNat_succ]
      omega
    rw [if_neg zeroD]
    rw [ne_eq, not_not, succ_eq_zero] at zeroD
    by_cases zeroC : c + 1 ≠ 0
    · rw [if_pos zeroC, split]
      refine ⟨congrArg _ (gcmIncrement_last ?_), rfl⟩
      rw [ne_eq, succ_eq_zero] at zeroC
      rw [number_four, number_four, toNat_succ, toNat_succ]
      omega
    rw [if_neg zeroC]
    rw [ne_eq, not_not, succ_eq_zero] at zeroC
    by_cases zeroB : b + 1 ≠ 0
    · rw [if_pos zeroB, split]
      refine ⟨congrArg _ (gcmIncrement_last ?_), rfl⟩
      rw [ne_eq, succ_eq_zero] at zeroB
      rw [number_four, number_four, toNat_succ, toNat_succ, toNat_succ]
      omega
    rw [if_neg zeroB, split]
    refine ⟨congrArg _ (gcmIncrement_last ?_), rfl⟩
    rw [ne_eq, not_not, succ_eq_zero] at zeroB
    rw [number_four, number_four, toNat_succ, toNat_succ, toNat_succ, toNat_succ]
    omega

/-- AES on bit strings. -/
def blockCipher (key : List UInt8) (input : List Bool) : List Bool :=
  bits (Aes.cipher key (unbits input))

theorem blockCipher_length (key : List UInt8) (input : List Bool) :
    (blockCipher key input).length = 128 := by
  unfold blockCipher
  rw [bits_length, Aes.cipher_length]

theorem blockCipher_eq {key block : List UInt8} (sized : key.length = 32) (full : block.length = 16) :
    bits (aesEncryptBlock block (aesExpand256 key)) = blockCipher key (bits block) ∧
      (aesEncryptBlock block (aesExpand256 key)).length = 16 := by
  unfold blockCipher
  rw [aesEncryptBlock_eq sized full, unbits_bits]
  exact ⟨rfl, Aes.cipher_length ..⟩

/-- **Counter mode**, from the block behind the counter. -/
theorem gcmCrypt_eq {key : List UInt8} (sized : key.length = 32) (input : List UInt8)
    {c : List UInt8} (full : c.length = 16) :
    bits (gcmCrypt input c (aesExpand256 key)).1 =
      gctr (blockCipher key) (inc32 (bits c)) (bits input) := by
  induction input, c using gcmCrypt.induct (aesExpand256 key) with
  | case1 input c some' count next ih =>
    obtain ⟨increment, full'⟩ := gcmIncrement_eq full
    obtain ⟨enciphered, _⟩ := blockCipher_eq sized full'
    have counted : count = if input.length < 16 then input.length else 16 := dite_eq_ite
    have later := ih full'
    rw [counted, show next = gcmIncrement c from rfl] at later
    rw [gcmCrypt, if_pos some']
    rw [bits_append, bits_zipWith_xor, enciphered, later, increment]
    by_cases short : input.length < 16
    · -- The last block is not full.
      rw [if_pos short, List.take_length, List.drop_length,
        bits_nil, gctr_nil, List.append_nil, gctr_short]
      · rfl
      · intro nothing
        have := congrArg List.length nothing
        rw [bits_length, List.length_nil] at this
        omega
      · rw [bits_length]
        omega
    · have block : (bits (input.take 16)).length = 128 := by
        rw [bits_length, List.length_take_of_le (Nat.le_of_not_lt short)]
      rw [if_neg short]
      conv_rhs => rw [← List.take_append_drop 16 input, bits_append]
      rw [gctr_block (blockCipher_length key) block]
      rfl
  | case2 input c nothing =>
    obtain rfl : input = [] := List.length_eq_zero_iff.mp (not_not.mp nothing)
    rw [gcmCrypt, if_neg nothing]
    rfl

/-! ### The entry points -/

theorem firstCounter_eq {nonce : List UInt8} (sized : nonce.length = 12) :
    bits (firstCounter nonce) = preCounter (bits nonce) ∧ (firstCounter nonce).length = 16 := by
  have written : firstCounter nonce = nonce ++ [0, 0, 0, 1] := by
    unfold firstCounter
    rw [List.set_append_right _ _ (by rw [sized]; decide), sized]
    rfl
  have last : bits [0, 0, 0, 1] = List.replicate 31 false ++ [true] := by decide
  unfold preCounter
  rw [written, bits_append, last, List.append_assoc, List.length_append, sized]
  exact ⟨rfl, rfl⟩

theorem tagDifference_eq {tag given : List UInt8} (sized : tag.length = 16) (sized' : given.length = 16) :
    tagDifference tag given = 0 ↔ given = tag := by
  have loop : ∀ (places : List ℕ) (difference : UInt8),
      places.foldl (fun difference index => difference ||| (tag.getD index 0 ^^^ given.getD index 0))
          difference = 0 ↔
        difference = 0 ∧ ∀ index ∈ places, tag.getD index 0 = given.getD index 0 := by
    intro places
    induction places with
    | nil => exact fun difference => (and_iff_left fun _ absurd' => nomatch absurd').symm
    | cons index places ih =>
      intro difference
      rw [List.foldl_cons, ih, UInt8.or_eq_zero_iff, UInt8.xor_eq_zero_iff, List.forall_mem_cons, and_assoc]
  unfold tagDifference
  rw [loop, and_iff_right rfl]
  constructor
  · intro same
    refine List.ext_getElem (sized'.trans sized.symm) fun index x y => ?_
    have read := same index (List.mem_range.mpr (by rwa [sized] at y))
    rw [List.getD_eq_getElem _ _ x, List.getD_eq_getElem _ _ y] at read
    exact read.symm
  · rintro rfl _ _
    rfl

variable {key value associated : List UInt8}

theorem gcmCrypt_text (sized : key.length = 32) {nonce : List UInt8} (nonceSized : nonce.length = 12)
    (input : List UInt8) :
    bits (gcmCrypt input (firstCounter nonce) (aesExpand256 key)).1 =
        gctr (blockCipher key) (inc32 (preCounter (bits nonce))) (bits input) ∧
      (gcmCrypt input (firstCounter nonce) (aesExpand256 key)).1.length = input.length := by
  obtain ⟨counter, full⟩ := firstCounter_eq nonceSized
  have text := gcmCrypt_eq sized input full
  rw [counter] at text
  refine ⟨text, ?_⟩
  have counted := congrArg List.length text
  rw [gctr_length (blockCipher_length key), bits_length, bits_length] at counted
  exact Nat.eq_of_mul_eq_mul_left (by decide) counted

theorem gcmTag_cipher (sized : key.length = 32) {nonce : List UInt8} (nonceSized : nonce.length = 12)
    (associated ciphertext : List UInt8) :
    bits (gcmTag associated ciphertext (aesEncryptBlock (List.replicate 16 0) (aesExpand256 key))
          (aesEncryptBlock (firstCounter nonce) (aesExpand256 key))) =
        tag (blockCipher key) (bits nonce) (bits associated) (bits ciphertext) ∧
      (gcmTag associated ciphertext (aesEncryptBlock (List.replicate 16 0) (aesExpand256 key))
          (aesEncryptBlock (firstCounter nonce) (aesExpand256 key))).length = 16 := by
  have zero : bits (List.replicate 16 0) = zeroBlock := bits_replicate 16
  obtain ⟨counter, full⟩ := firstCounter_eq nonceSized
  obtain ⟨hash, length⟩ := blockCipher_eq sized (List.length_replicate (n := 16) (a := (0 : UInt8)))
  obtain ⟨mask, length'⟩ := blockCipher_eq sized full
  obtain ⟨value, length''⟩ := gcmTag_eq associated ciphertext
    (aesEncryptBlock (firstCounter nonce) (aesExpand256 key)) length
  rw [length'] at length''
  refine ⟨?_, length''⟩
  have hashLength := blockCipher_length key zeroBlock
  rw [value, mask, hash, counter, zero]
  unfold tag
  -- The hash has one block, so that counter mode is its sum with the mask.
  rw [gctr_short]
  · intro nothing
    have := congrArg List.length nothing
    rw [ghash_length hashLength] at this
    cases this
  · exact (ghash_length hashLength _).le

/-- **The encryption of the standard**, behind the nonce. -/
theorem aes256GcmEncrypt_eq (sized : key.length = 32) (nonce : Vector UInt8 12)
    (small : value.length ≤ sizeMax / 8) (small' : associated.length ≤ sizeMax / 8) :
    ∃ ciphertext tag, ciphertext.length = value.length ∧ tag.length = 16 ∧
      aes256GcmEncrypt true (some key) (some value) (some associated) (some nonce) =
        (0, some (nonce.toList ++ ciphertext ++ tag)) ∧
      encrypt (blockCipher key) (bits nonce.toList) (bits value) (bits associated) =
        (bits ciphertext, bits tag) := by
  obtain ⟨text, length⟩ := gcmCrypt_text sized nonce.length_toList value
  obtain ⟨tag, length'⟩ := gcmTag_cipher sized nonce.length_toList associated
    (gcmCrypt value (firstCounter nonce.toList) (aesExpand256 key)).1
  refine ⟨_, _, length, length', ?_, ?_⟩
  · have limits : ¬(value.length > sizeMax - 28 ∨ value.length > sizeMax / 8 ∨
        associated.length > sizeMax / 8) := by
      unfold sizeMax at *
      omega
    unfold aes256GcmEncrypt
    dsimp only
    rw [if_neg Bool.noConfusion, if_neg (not_not.mpr sized), if_neg limits]
  · unfold encrypt
    rw [← text, tag]

/-- **The decryption of the standard**, of what is behind the nonce and in front of the tag. -/
theorem aes256GcmDecrypt_eq (sized : key.length = 32) (long : 28 ≤ value.length)
    (small : value.length - 28 ≤ sizeMax / 8) (small' : associated.length ≤ sizeMax / 8) :
    aes256GcmDecrypt true (some key) (some value) (some associated) =
      match decrypt (blockCipher key) (bits (value.take 12))
          (bits ((value.drop 12).take (value.length - 28))) (bits associated)
          (bits (value.drop (value.length - 16))) with
      | some plain => (0, some (unbits plain))
      | none => (4, none) := by
  have nonceSized : (value.take 12).length = 12 := List.length_take_of_le (by omega)
  obtain ⟨text, _⟩ := gcmCrypt_text sized nonceSized ((value.drop 12).take (value.length - 28))
  obtain ⟨tag, length⟩ := gcmTag_cipher sized nonceSized associated
    ((value.drop 12).take (value.length - 28))
  have given : (value.drop (value.length - 16)).length = 16 := by
    rw [List.length_drop]
    omega
  have limits : ¬(value.length < 28 ∨ value.length - 28 > sizeMax / 8 ∨
      associated.length > sizeMax / 8) := by omega
  unfold aes256GcmDecrypt
  dsimp only
  rw [if_neg Bool.noConfusion, if_neg (not_not.mpr sized), if_neg limits,
    show 12 + (value.length - 28) = value.length - 16 by omega]
  unfold decrypt
  by_cases same : bits (value.drop (value.length - 16)) = Gcm.tag (blockCipher key) (bits (value.take 12))
      (bits associated) (bits ((value.drop 12).take (value.length - 28)))
  · rw [if_pos same, if_neg, ← text]
    · dsimp only
      rw [unbits_bits]
    · rw [not_not, tagDifference_eq length given]
      exact bits_injective (same.trans tag.symm)
  · rw [if_neg same, if_pos]
    rw [ne_eq, tagDifference_eq length given]
    intro equal
    exact same ((congrArg bits equal).trans tag)

theorem aes256GcmEncrypt_some {st : ℕ} {nonce : Vector UInt8 12} {out : List UInt8}
    (given : aes256GcmEncrypt true (some key) (some value) (some associated) (some nonce) =
      (st, some out)) : value.length ≤ sizeMax / 8 ∧ associated.length ≤ sizeMax / 8 := by
  unfold aes256GcmEncrypt at given
  dsimp only at given
  rw [if_neg Bool.noConfusion] at given
  split at given
  · cases given
  · split at given
    · cases given
    · rename_i limits
      omega

/-- **What is encrypted is decrypted.** -/
theorem aes256Gcm_round_trip (sized : key.length = 32) (nonce : Vector UInt8 12)
    (small : value.length ≤ sizeMax / 8) (small' : associated.length ≤ sizeMax / 8) :
    ∃ out, aes256GcmEncrypt true (some key) (some value) (some associated) (some nonce) = (0, some out) ∧
      aes256GcmDecrypt true (some key) (some out) (some associated) = (0, some value) := by
  obtain ⟨ciphertext, tag, length, length', encrypted, standard⟩ :=
    aes256GcmEncrypt_eq sized nonce small small'
  refine ⟨_, encrypted, ?_⟩
  have nonceLength : nonce.toList.length = 12 := nonce.length_toList
  have outLength : (nonce.toList ++ ciphertext ++ tag).length = value.length + 28 := by
    rw [List.length_append, List.length_append, nonceLength, length, length']
    omega
  have first : (nonce.toList ++ ciphertext ++ tag).take 12 = nonce.toList := by
    rw [List.append_assoc, List.take_left' nonceLength]
  have middle : ((nonce.toList ++ ciphertext ++ tag).drop 12).take value.length = ciphertext := by
    rw [List.append_assoc, List.drop_left' nonceLength, List.take_left' length]
  have last : (nonce.toList ++ ciphertext ++ tag).drop (value.length + 12) = tag := by
    rw [List.drop_left']
    rw [List.length_append, nonceLength, length, Nat.add_comm]
  have decrypted := decrypt_encrypt (blockCipher_length key) (bits nonce.toList) (bits value)
    (bits associated)
  rw [standard] at decrypted
  rw [aes256GcmDecrypt_eq sized (by omega) (by omega) small', outLength, Nat.add_sub_cancel,
    show value.length + 28 - 16 = value.length + 12 by omega, first, middle, last, decrypted]
  dsimp only
  rw [unbits_bits]

/-- **Round trip and authentication.** The first part is about the output of an encryption, which there is
for data within the limits. The second is about every call of the decryption: either the last 16 bytes are
the tag of the associated data and of the bytes in the middle, or there is an error and no output. -/
theorem aes256Gcm_authenticated :
    (∀ (key value associated : List UInt8) (nonce : Vector UInt8 12), key.length = 32 →
      (value.length ≤ sizeMax / 8 ∧ associated.length ≤ sizeMax / 8 →
        ∃ out, aes256GcmEncrypt true (some key) (some value) (some associated) (some nonce) =
          (0, some out)) ∧
      ∀ status out, aes256GcmEncrypt true (some key) (some value) (some associated) (some nonce) =
          (status, some out) →
        aes256GcmDecrypt true (some key) (some out) (some associated) = (0, some value)) ∧
    ∀ (result : Bool) (key value associated : Option (List UInt8)),
      (∃ keyBytes input data plain, key = some keyBytes ∧ value = some input ∧ associated = some data ∧
        keyBytes.length = 32 ∧ 28 ≤ input.length ∧
        aes256GcmDecrypt result key value associated = (0, some plain) ∧
        bits (input.drop (input.length - 16)) = tag (blockCipher keyBytes) (bits (input.take 12))
          (bits data) (bits ((input.drop 12).take (input.length - 28)))) ∨
      ∃ status, status ≠ 0 ∧ aes256GcmDecrypt result key value associated = (status, none) := by
  refine ⟨fun key value associated nonce sized => ⟨?_, ?_⟩, fun result key value associated => ?_⟩
  · rintro ⟨small, small'⟩
    obtain ⟨out, encrypted, _⟩ := aes256Gcm_round_trip sized nonce small small'
    exact ⟨out, encrypted⟩
  · intro status out encrypted
    obtain ⟨small, small'⟩ := aes256GcmEncrypt_some encrypted
    obtain ⟨same, encrypted', decrypted⟩ := aes256Gcm_round_trip sized nonce small small'
    rw [encrypted] at encrypted'
    cases encrypted'
    exact decrypted
  · cases result with
    | false => exact Or.inr ⟨1, one_ne_zero, rfl⟩
    | true =>
      obtain _ | keyBytes := key
      · exact Or.inr ⟨1, one_ne_zero, rfl⟩
      obtain _ | input := value
      · exact Or.inr ⟨1, one_ne_zero, rfl⟩
      obtain _ | data := associated
      · exact Or.inr ⟨1, one_ne_zero, rfl⟩
      by_cases sized : keyBytes.length = 32
      · by_cases limits : input.length < 28 ∨ input.length - 28 > sizeMax / 8 ∨ data.length > sizeMax / 8
        · refine Or.inr ⟨3, by decide, ?_⟩
          unfold aes256GcmDecrypt
          dsimp only
          rw [if_neg Bool.noConfusion, if_neg (not_not.mpr sized), if_pos limits]
        · have long : 28 ≤ input.length := by omega
          rw [aes256GcmDecrypt_eq sized long (by omega) (by omega)]
          unfold decrypt
          by_cases same : bits (input.drop (input.length - 16)) = tag (blockCipher keyBytes)
              (bits (input.take 12)) (bits data) (bits ((input.drop 12).take (input.length - 28)))
          · rw [if_pos same]
            exact Or.inl ⟨keyBytes, input, data, _, rfl, rfl, rfl, sized, long, rfl, same⟩
          · rw [if_neg same]
            exact Or.inr ⟨4, by decide, rfl⟩
      · refine Or.inr ⟨2, by decide, ?_⟩
        unfold aes256GcmDecrypt
        dsimp only
        rw [if_neg Bool.noConfusion, if_pos sized]

/-- A text of three bytes under the key of zeros. -/
theorem aes256Gcm_authenticated_sample :
    ∃ out, aes256GcmEncrypt true (some (List.replicate 32 0)) (some [1, 2, 3]) (some [4])
        (some (Vector.replicate 12 5)) = (0, some out) ∧
      aes256GcmDecrypt true (some (List.replicate 32 0)) (some out) (some [4]) = (0, some [1, 2, 3]) := by
  obtain ⟨gives, releases⟩ := aes256Gcm_authenticated.1 (List.replicate 32 0) [1, 2, 3] [4]
    (Vector.replicate 12 5) List.length_replicate
  obtain ⟨out, encrypted⟩ := gives ⟨by decide, by decide⟩
  exact ⟨out, encrypted, releases 0 out encrypted⟩

end FoundationLang.Crypto
