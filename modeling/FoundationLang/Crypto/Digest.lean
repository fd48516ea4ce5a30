/-
**Both digests are SHA-256.**
-/

import FoundationLang.Crypto.Sha256
import FoundationLang.Library.Outcome

namespace FoundationLang.Crypto

open List

open Library Library.Sha256

variable {block : List UInt8} {i : ℕ}

/-! ### Words -/

theorem rotateRight_toBitVec (v : UInt32) {n : UInt32} (pos : 0 < n.toNat)
    (small : n.toNat < 32) :
    (rotateRight v n).toBitVec = v.toBitVec.rotateRight n.toNat := by
  have other : (32 - n).toNat = 32 - n.toNat := by
    rw [UInt32.toNat_sub_of_le]
    · rfl
    · exact UInt32.le_iff_toNat_le.mpr (Nat.le_of_lt small)
  unfold rotateRight
  apply BitVec.eq_of_toNat_eq
  rw [UInt32.toNat_toBitVec, BitVec.rotateRight_def, BitVec.toNat_or, UInt32.toNat_or,
    UInt32.toNat_shiftRight, UInt32.toNat_shiftLeft, other, BitVec.toNat_ushiftRight,
    BitVec.toNat_shiftLeft, Nat.mod_eq_of_lt small, Nat.mod_eq_of_lt (by omega : 32 - n.toNat < 32)]
  rfl

theorem shiftRight_toBitVec (v : UInt32) {n : UInt32} (small : n.toNat < 32) :
    (v >>> n).toBitVec = v.toBitVec >>> n.toNat := by
  apply BitVec.eq_of_toNat_eq
  rw [UInt32.toNat_toBitVec, UInt32.toNat_shiftRight, BitVec.toNat_ushiftRight,
    Nat.mod_eq_of_lt small]
  rfl

theorem loadWord_toBitVec {bytes : List UInt8} (inside : i + 4 ≤ bytes.length) :
    (loadWord bytes i).toBitVec = BitVec.ofNat 32 (bigEndian ((bytes.drop i).take 4)) := by
  obtain ⟨first, second, third, fourth, rest, same⟩ :
      ∃ first second third fourth rest, bytes.drop i = first :: second :: third :: fourth :: rest := by
    match known : bytes.drop i with
    | first :: second :: third :: fourth :: rest => exact ⟨_, _, _, _, _, rfl⟩
    | [] | [_] | [_, _] | [_, _, _] =>
      have length := congrArg List.length known
      rw [length_drop] at length
      simp only [length_cons, length_nil] at length
      omega
  have at' (index : ℕ) : bytes.getD (i + index) 0 = (bytes.drop i).getD index 0 := by
    rw [getD_eq_getElem?_getD, getD_eq_getElem?_getD, List.getElem?_drop]
  have zero : bytes.getD i 0 = (bytes.drop i).getD 0 0 := at' 0
  unfold loadWord
  rw [at' 1, at' 2, at' 3, zero, same]
  apply BitVec.eq_of_toNat_eq
  have first' := first.toNat_lt
  have second' := second.toNat_lt
  have third' := third.toNat_lt
  have fourth' := fourth.toNat_lt
  rw [UInt32.toNat_toBitVec, BitVec.toNat_ofNat]
  simp only [UInt32.toNat_or, UInt32.toNat_shiftLeft, UInt8.toNat_toUInt32, getD_cons_zero,
    getD_cons_succ, take_succ_cons, take_zero, bigEndian, foldl_cons,
    foldl_nil]
  change first.toNat <<< 24 % 2 ^ 32 ||| second.toNat <<< 16 % 2 ^ 32 |||
    third.toNat <<< 8 % 2 ^ 32 ||| fourth.toNat = _
  rw [Nat.shiftLeft_eq, Nat.shiftLeft_eq, Nat.shiftLeft_eq, Nat.mod_eq_of_lt (by omega),
    Nat.mod_eq_of_lt (by omega), Nat.mod_eq_of_lt (by omega), Nat.mod_eq_of_lt (by omega),
    Nat.mul_comm, ← Nat.two_pow_add_eq_or_of_lt (by omega)]
  have third'' : 2 ^ 24 * first.toNat + second.toNat * 2 ^ 16 =
      2 ^ 16 * (256 * first.toNat + second.toNat) := by omega
  rw [third'', ← Nat.two_pow_add_eq_or_of_lt (by omega)]
  have fourth'' : 2 ^ 16 * (256 * first.toNat + second.toNat) + third.toNat * 2 ^ 8 =
      2 ^ 8 * (256 * (256 * first.toNat + second.toNat) + third.toNat) := by omega
  rw [fourth'', ← Nat.two_pow_add_eq_or_of_lt (by omega)]
  omega

theorem storeWord_eq (word : UInt32) : storeWord word = toBytes 4 word.toNat := by
  have byte (v : UInt32) (n : UInt32) : (v >>> n).toUInt8 =
      UInt8.ofNat (v.toNat / 2 ^ (n.toNat % 32)) := by
    apply UInt8.toNat_inj.mp
    rw [UInt32.toNat_toUInt8, UInt32.toNat_shiftRight, Nat.shiftRight_eq_div_pow, UInt8.toNat_ofNat']
  have last : word.toUInt8 = UInt8.ofNat word.toNat := by
    apply UInt8.toNat_inj.mp
    rw [UInt32.toNat_toUInt8, UInt8.toNat_ofNat']
  unfold storeWord toBytes
  rw [byte, byte, byte, last]
  change _ = [UInt8.ofNat (word.toNat / 256 ^ 3), UInt8.ofNat (word.toNat / 256 ^ 2),
    UInt8.ofNat (word.toNat / 256 ^ 1), UInt8.ofNat (word.toNat / 1)]
  rw [Nat.div_one]
  rfl

/-! ### One block -/

/-- The words that a standard register has. -/
def spec (registers : Registers UInt32) : Registers Word :=
  registers.map UInt32.toBitVec

theorem initialState_eq : spec initialState = initialHash := by
  decide +kernel

theorem sha256Constants_eq : sha256Constants.map UInt32.toBitVec = constants := by
  decide +kernel

theorem compilerConstants_eq : compilerConstants.map UInt32.toBitVec = constants :=
  sha256Constants_eq

theorem transformRound_eq (registers : Registers UInt32) (constant word : UInt32) :
    spec (transformRound registers constant word) =
      hashRound (spec registers) constant.toBitVec word.toBitVec := by
  obtain ⟨a, b, c, d, e, f, g, h⟩ := registers
  simp only [spec, transformRound, Registers.map, hashRound, bigSigma0, bigSigma1, choice, majority,
    UInt32.toBitVec_add, UInt32.toBitVec_xor, UInt32.toBitVec_and, UInt32.toBitVec_not]
  rw [rotateRight_toBitVec e (by decide) (by decide), rotateRight_toBitVec e (by decide) (by decide),
    rotateRight_toBitVec e (by decide) (by decide), rotateRight_toBitVec a (by decide) (by decide),
    rotateRight_toBitVec a (by decide) (by decide), rotateRight_toBitVec a (by decide) (by decide)]
  rfl

theorem schedule_first {index : ℕ} (small : index < 16) :
    schedule block index = blockWord block index := by
  rw [schedule, if_pos small]

theorem schedule_next {i : ℕ} (large : 16 ≤ i) :
    schedule block i = smallSigma1 (schedule block (i - 2)) + schedule block (i - 7) +
      smallSigma0 (schedule block (i - 15)) + schedule block (i - 16) := by
  rw [schedule, if_neg (by omega)]

theorem nextWord_eq {ws : List UInt32} {count : ℕ} (large : 16 ≤ count)
    (known : ws.map UInt32.toBitVec = (List.range count).map (schedule block)) :
    (nextWord ws).toBitVec = schedule block count := by
  have length : ws.length = count := by
    have same := congrArg List.length known
    rwa [length_map, length_map, length_range] at same
  have word {index : ℕ} (small : index < count) :
      (ws.getD index 0).toBitVec = schedule block index := by
    have same := congrArg (fun list => list.getD index 0) known
    rw [getD_eq_getElem?_getD, getD_eq_getElem?_getD, List.getElem?_map, List.getElem?_map,
      List.getElem?_range small, List.getElem?_eq_getElem (length ▸ small)] at same
    rw [getD_eq_getElem?_getD, List.getElem?_eq_getElem (length ▸ small)]
    exact same
  unfold nextWord
  simp only [UInt32.toBitVec_add, UInt32.toBitVec_xor, length]
  rw [rotateRight_toBitVec _ (by decide) (by decide), rotateRight_toBitVec _ (by decide) (by decide),
    rotateRight_toBitVec _ (by decide) (by decide), rotateRight_toBitVec _ (by decide) (by decide),
    shiftRight_toBitVec _ (by decide), shiftRight_toBitVec _ (by decide), word (by omega),
    word (by omega), word (by omega), word (by omega), schedule_next large]
  change _ + smallSigma0 _ + _ + smallSigma1 _ = _
  ac_rfl

theorem extendWords_eq (more : ℕ) {ws : List UInt32} {n : ℕ} (large : 16 ≤ n)
    (known : ws.map UInt32.toBitVec = (List.range n).map (schedule block)) :
    (extendWords more ws).map UInt32.toBitVec =
      (List.range (n + more)).map (schedule block) := by
  induction more generalizing ws n with
  | zero => exact known
  | succ more ih =>
    rw [extendWords, ih (Nat.le_succ_of_le large), Nat.succ_add_eq_add_succ]
    rw [map_append, known, range_succ, map_append, map_singleton,
      map_singleton, nextWord_eq large known]

theorem foldl_rounds (pairs : List (UInt32 × UInt32)) (registers : Registers UInt32) :
    spec (pairs.foldl (fun registers (constant, word) => transformRound registers constant word)
        registers) =
      (pairs.map fun pair => (pair.1.toBitVec, pair.2.toBitVec)).foldl
        (fun registers (constant, word) => hashRound registers constant word) (spec registers) := by
  induction pairs generalizing registers with
  | nil => rfl
  | cons pair pairs ih =>
    rw [foldl_cons, ih, transformRound_eq]
    rfl

/-- **One block**: the words behind it are the ones of the standard. -/
theorem transform_eq {table : List UInt32} (same : table.map UInt32.toBitVec = constants)
    (s : Registers UInt32) (full : block.length = 64) :
    spec (transform table s block) = compress (spec s) block := by
  have first : ((List.range 16).map fun index => loadWord block (index * 4)).map UInt32.toBitVec =
      (List.range 16).map (schedule block) := by
    rw [map_map]
    refine map_congr_left fun index mem => ?_
    have small := mem_range.mp mem
    rw [schedule_first small]
    change (loadWord block (index * 4)).toBitVec = _
    rw [loadWord_toBitVec (by omega), Nat.mul_comm]
    rfl
  have ws := extendWords_eq 48 (Nat.le_refl 16) first
  have pairs : (table.zip (extendWords 48
      ((List.range 16).map fun index => loadWord block (index * 4)))).map
      (fun pair => (pair.1.toBitVec, pair.2.toBitVec)) =
      constants.zip ((List.range 64).map (schedule block)) := by
    rw [← same, ← ws, zip_map]
    rfl
  have sums (left right : Registers UInt32) : spec (left.add right) = (spec left).add (spec right) := rfl
  unfold transform compress
  rw [sums, foldl_rounds, pairs]

/-! ### The block that is filled -/

/-- **What a hasher has absorbed.** -/
def Holds (hasher : Hasher) (text : List UInt8) : Prop :=
  Absorbed 64 compress initialHash text (spec hasher.state) (hasher.block.take hasher.used)

theorem overwrite_take (bytes : List UInt8) (inside : i ≤ block.length) :
    (overwrite block i bytes).take (i + bytes.length) = block.take i ++ bytes := by
  have length : (block.take i ++ bytes).length = i + bytes.length := by
    rw [length_append, length_take, Nat.min_eq_left inside]
  unfold overwrite
  exact take_left' length

theorem overwrite_full {bytes : List UInt8}
    (full : i + bytes.length = block.length) :
    overwrite block i bytes = block.take i ++ bytes := by
  unfold overwrite
  rw [full, drop_length, append_nil]

section Hashers

variable {table : List UInt32} (same : table.map UInt32.toBitVec = constants) {hasher : Hasher}
  {text : List UInt8}

theorem Hasher.take_length (hasher : Hasher) : (hasher.block.take hasher.used).length = hasher.used := by
  rw [length_take, hasher.sized, Nat.min_eq_left (Nat.le_of_lt hasher.room)]

include same in
theorem Holds.fill (holds : Holds hasher text) {part : List UInt8}
    (fits : hasher.used + part.length ≤ 64) : Holds (hasher.fill table part fits) (text ++ part) := by
  have inside : hasher.used ≤ hasher.block.length := by
    rw [hasher.sized]
    exact Nat.le_of_lt hasher.room
  have length : (hasher.block.take hasher.used ++ part).length = hasher.used + part.length := by
    rw [length_append, hasher.take_length]
  unfold Hasher.fill
  by_cases full : hasher.used + part.length = 64
  · rw [dif_pos full]
    change Absorbed 64 compress initialHash (text ++ part)
      (spec (transform table hasher.state (overwrite hasher.block hasher.used part))) []
    rw [overwrite_full (full.trans hasher.sized.symm),
      transform_eq same _ (length.trans full)]
    exact Absorbed.complete holds (length.trans full)
  · rw [dif_neg full]
    change Absorbed 64 compress initialHash (text ++ part) (spec hasher.state)
      ((overwrite hasher.block hasher.used part).take (hasher.used + part.length))
    rw [overwrite_take part inside]
    exact Absorbed.extend holds (by omega)

include same in
/-- **An update.** -/
theorem Holds.absorb (holds : Holds hasher text) (v : List UInt8) :
    Holds (hasher.absorb table v) (text ++ v) := by
  fun_induction Hasher.absorb table hasher v generalizing text with
  | case1 hasher =>
    rw [append_nil]
    exact holds
  | case2 hasher v some' ih =>
    have filled := holds.fill same (hasher.count_fits v)
    have more := ih filled
    rwa [append_assoc, take_append_drop] at more

theorem writeBits_eq (sized : block.length = 64) (bits : UInt64) :
    writeBits block bits = block.take 56 ++ toBytes 8 bits.toNat := by
  have byte (index : ℕ) (small : index < 8) : (bits >>> UInt64.ofNat (index * 8)).toUInt8 =
      UInt8.ofNat (bits.toNat / 256 ^ index) := by
    have shift : (UInt64.ofNat (index * 8)).toNat % 64 = 8 * index := by
      rw [UInt64.toNat_ofNat']
      omega
    apply UInt8.toNat_inj.mp
    rw [UInt64.toNat_toUInt8, UInt64.toNat_shiftRight, shift, Nat.shiftRight_eq_div_pow,
      UInt8.toNat_ofNat', Nat.pow_mul]
  have last : (block.drop 56).length = 8 := by
    rw [length_drop, sized]
  have front : (block.take 56).length = 56 := by
    rw [length_take, sized]
    rfl
  obtain ⟨b0, b1, b2, b3, b4, b5, b6, b7, known⟩ :
      ∃ b0 b1 b2 b3 b4 b5 b6 b7, block.drop 56 = [b0, b1, b2, b3, b4, b5, b6, b7] := by
    match tail : block.drop 56 with
    | [b0, b1, b2, b3, b4, b5, b6, b7] => exact ⟨_, _, _, _, _, _, _, _, rfl⟩
    | [] | [_] | [_, _] | [_, _, _] | [_, _, _, _] | [_, _, _, _, _] | [_, _, _, _, _, _]
    | [_, _, _, _, _, _, _] | _ :: _ :: _ :: _ :: _ :: _ :: _ :: _ :: _ :: _ =>
      rw [tail] at last
      simp at last
  -- The bytes are written from the end of the block.
  have places (index : ℕ) (small : index < 8) (tail : List UInt8) (value : UInt8) :
      (block.take 56 ++ tail).set (63 - index) value =
        block.take 56 ++ tail.set (7 - index) value := by
    rw [set_append_right _ _ (by omega), front]
    congr 2
    omega
  unfold writeBits
  conv => lhs; arg 2; rw [← take_append_drop 56 block, known]
  rw [show List.range 8 = [0, 1, 2, 3, 4, 5, 6, 7] from rfl]
  simp only [foldl_cons, foldl_nil]
  rw [places 0 (by decide), places 1 (by decide), places 2 (by decide), places 3 (by decide),
    places 4 (by decide), places 5 (by decide), places 6 (by decide), places 7 (by decide),
    byte 0 (by decide), byte 1 (by decide), byte 2 (by decide), byte 3 (by decide),
    byte 4 (by decide), byte 5 (by decide), byte 6 (by decide), byte 7 (by decide)]
  rfl

theorem words_eq (s : Registers UInt32) :
    s.toList.flatMap storeWord =
      (spec s).toList.flatMap fun word => toBytes 4 word.toNat := by
  simp only [Registers.toList, flatMap_cons, flatMap_nil, storeWord_eq]
  rfl

include same in
theorem last_block {s : Registers UInt32} {left : List UInt8}
    (absorbed : Absorbed 64 compress initialHash text (spec s) left) (sized : block.length = 64)
    {zeros : List UInt8} (front : block.take 56 = left ++ zeros) (bits : UInt64)
    {message : List UInt8} (padded : text ++ (zeros ++ toBytes 8 bits.toNat) = pad message) :
    (transform table s (writeBits block bits)).toList.flatMap storeWord = sha256 message := by
  have whole : writeBits block bits = left ++ (zeros ++ toBytes 8 bits.toNat) := by
    rw [writeBits_eq sized, front, append_assoc]
  have full : (left ++ (zeros ++ toBytes 8 bits.toNat)).length = 64 := by
    rw [← whole, writeBits_eq sized, length_append, toBytes_length, length_take, sized]
    rfl
  have done := (absorbed.complete full).state_eq
  rw [words_eq, whole, transform_eq same s full, done, padded]
  rfl

include same in
/-- **The end of a digest** is the padding of the message. -/
theorem close_eq (holds : Holds hasher text) {bits : UInt64} (counted : bits.toNat = 8 * text.length) :
    hasher.close table bits = sha256 text := by
  have used : hasher.used = text.length % 64 :=
    hasher.take_length.symm.trans (Absorbed.left_length holds)
  have inside : hasher.used ≤ hasher.block.length := by
    rw [hasher.sized]
    exact Nat.le_of_lt hasher.room
  have marked : (overwrite hasher.block hasher.used [0x80]).length = 64 :=
    (overwrite_length (hasher.sized ▸ hasher.room)).trans hasher.sized
  have marked' : (overwrite hasher.block hasher.used [0x80]).take (hasher.used + 1) =
      hasher.block.take hasher.used ++ [0x80] := overwrite_take [0x80] inside
  have room := hasher.room
  unfold Hasher.close
  dsimp only
  by_cases long : hasher.used + 1 > 56
  · -- The marker leaves no room for the number of bits, which is written to a second block.
    rw [if_pos long]
    have fits : hasher.used + 1 + (List.replicate (64 - (hasher.used + 1)) (0 : UInt8)).length =
        (overwrite hasher.block hasher.used [0x80]).length := by
      rw [length_replicate, marked]
      omega
    have first := overwrite_full fits
    rw [marked', append_assoc] at first
    have length := overwrite_length (Nat.le_of_eq fits)
    rw [marked] at length
    rw [first] at length ⊢
    have absorbed := Absorbed.complete holds length
    rw [← transform_eq same hasher.state length] at absorbed
    have fits' : 0 + (List.replicate (56 - 0) (0 : UInt8)).length ≤
        (hasher.block.take hasher.used ++ ([0x80] ++ List.replicate (64 - (hasher.used + 1)) 0)).length := by
      rw [length, length_replicate]
      decide
    refine last_block same absorbed ((overwrite_length fits').trans length)
      (overwrite_take (List.replicate (56 - 0) 0) (Nat.zero_le _)) bits ?_
    have zeros' : zeros text.length = (64 - (hasher.used + 1)) + (56 - 0) := by
      unfold zeros
      omega
    unfold pad
    rw [counted, zeros', ← replicate_append_replicate]
    simp
  · rw [if_neg long]
    have fits : hasher.used + 1 + (List.replicate (56 - (hasher.used + 1)) (0 : UInt8)).length ≤
        (overwrite hasher.block hasher.used [0x80]).length := by
      rw [length_replicate, marked]
      omega
    have before : hasher.used + 1 ≤ (overwrite hasher.block hasher.used [0x80]).length := by
      rw [marked]
      exact room
    have front := overwrite_take (List.replicate (56 - (hasher.used + 1)) (0 : UInt8)) before
    rw [length_replicate, Nat.add_sub_cancel' (by omega), marked', append_assoc] at front
    refine last_block same holds ((overwrite_length fits).trans marked) front bits ?_
    have zeros' : zeros text.length = 56 - (hasher.used + 1) := by
      unfold zeros
      omega
    unfold pad
    rw [counted, zeros']
    simp

end Hashers

/-! ### The runtime and the compiler -/

theorem holds_initial (sized : block.length = 64) :
    Holds ⟨initialState, block, 0, sized, by decide⟩ [] := by
  unfold Holds
  rw [initialState_eq]
  exact absorbed_nil (by decide)

/-- What an update keeps of the text that was read, the updates keep. -/
theorem foldlM_update {C E : Type} {update : C → List UInt8 → Except E C}
    (Kept : C → List UInt8 → Prop) {chunks : List (List UInt8)} (context : C) {text : List UInt8}
    (step : ∀ {context text chunk}, Kept context text → text.length + chunk.length < 2 ^ 61 →
      ∃ next, update context chunk = .ok next ∧ Kept next (text ++ chunk))
    (kept : Kept context text) (small : text.length + chunks.flatten.length < 2 ^ 61) :
    ∃ after, chunks.foldlM update context = .ok after ∧ Kept after (text ++ chunks.flatten) := by
  induction chunks generalizing context text with
  | nil => exact ⟨context, rfl, by rwa [flatten_nil, append_nil]⟩
  | cons chunk chunks ih =>
    rw [flatten_cons, length_append] at small
    obtain ⟨next, updated, kept⟩ := @step _ _ chunk kept (by omega)
    obtain ⟨after, ran, kept⟩ := ih next kept (by rw [length_append]; omega)
    rw [flatten_cons, ← append_assoc]
    refine ⟨after, ?_, kept⟩
    rw [foldlM_cons]
    exact except_bind_eq_ok.mpr ⟨next, updated, ran⟩

theorem update_eq {context : Context} {text chunk : List UInt8}
    (kept : Holds context.hasher text ∧ context.length.toNat = 8 * text.length)
    (small : text.length + chunk.length < 2 ^ 61) :
    ∃ next, update context chunk = .ok next ∧ Holds next.hasher (text ++ chunk) ∧
      next.length.toNat = 8 * (text ++ chunk).length := by
  obtain ⟨holds, counted⟩ := kept
  unfold update
  rw [if_neg (by omega)]
  refine ⟨_, rfl, holds.absorb sha256Constants_eq chunk, ?_⟩
  rw [UInt64.toNat_add, UInt64.toNat_mul, UInt64.toNat_ofNat', counted, length_append]
  change (8 * text.length + chunk.length % 2 ^ 64 * 8 % 2 ^ 64) % 2 ^ 64 = _
  omega

theorem Sha256.update_eq {self : Sha256} {text chunk : List UInt8}
    (kept : self.finished = false ∧ Holds self.hasher text ∧ self.totalBytes.toNat = text.length)
    (small : text.length + chunk.length < 2 ^ 61) :
    ∃ next, self.update chunk = .ok next ∧ next.finished = false ∧
      Holds next.hasher (text ++ chunk) ∧ next.totalBytes.toNat = (text ++ chunk).length := by
  obtain ⟨running, holds, counted⟩ := kept
  unfold Sha256.update
  rw [if_neg (running ▸ Bool.false_ne_true), if_neg (by omega)]
  refine ⟨_, rfl, running, holds.absorb compilerConstants_eq chunk, ?_⟩
  rw [UInt64.toNat_add, UInt64.toNat_ofNat', counted, length_append]
  omega

/-- **SHA-256.** The runtime and the compiler return the digest of the standard, however the message is
split into chunks, and whatever was in the memory of the block. -/
theorem digest_eq {chunks : List (List UInt8)} (small : chunks.flatten.length < 2 ^ 61)
    {memory : List UInt8} (sized : memory.length = 64) :
    digest memory sized chunks = .ok (sha256 chunks.flatten) ∧
      Sha256.digest chunks = .ok (sha256 chunks.flatten) := by
  have small' : ([] : List UInt8).length + chunks.flatten.length < 2 ^ 61 := by
    rwa [length_nil, Nat.zero_add]
  constructor
  · obtain ⟨after, ran, holds, counted⟩ :=
      foldlM_update (fun (context : Context) text =>
          Holds context.hasher text ∧ context.length.toNat = 8 * text.length)
        (init memory sized) update_eq ⟨holds_initial sized, rfl⟩ small'
    refine except_bind_eq_ok.mpr ⟨after, ran, ?_⟩
    unfold finish
    rw [close_eq sha256Constants_eq holds counted]
    rfl
  · obtain ⟨after, ran, running, holds, counted⟩ := foldlM_update
        (fun (self : Sha256) text =>
          self.finished = false ∧ Holds self.hasher text ∧ self.totalBytes.toNat = text.length)
        .new Sha256.update_eq ⟨rfl, holds_initial length_replicate, rfl⟩ small'
    refine except_bind_eq_ok.mpr ⟨after, ran, ?_⟩
    have bits : (after.totalBytes * 8).toNat = 8 * ([] ++ chunks.flatten).length := by
      rw [UInt64.toNat_mul, counted]
      change ([] ++ chunks.flatten).length * 8 % 2 ^ 64 = _
      rw [nil_append]
      omega
    unfold Sha256.finish
    rw [running, if_neg Bool.false_ne_true, close_eq compilerConstants_eq holds bits]
    rfl

theorem digest_eq_sample :
    digest (List.replicate 64 7) length_replicate [[97, 97], [], [98]] =
        .ok (sha256 [97, 97, 98]) ∧
      Sha256.digest [[97, 97], [], [98]] = .ok (sha256 [97, 97, 98]) :=
  @digest_eq [[97, 97], [], [98]] (by decide) _ length_replicate

/-- The digest of `abc` in the standard. -/
example : Sha256.digest [[97], [], [98, 99]] =
    .ok [0xba, 0x78, 0x16, 0xbf, 0x8f, 0x01, 0xcf, 0xea, 0x41, 0x41, 0x40, 0xde, 0x5d, 0xae, 0x22, 0x23,
      0xb0, 0x03, 0x61, 0xa3, 0x96, 0x17, 0x7a, 0x9c, 0xb4, 0x10, 0xff, 0x61, 0xf2, 0x00, 0x15, 0xad] := by
  decide +kernel

end FoundationLang.Crypto
