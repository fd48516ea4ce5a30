/-
**AES-256 of the runtime** (`crypto.c`) is the cipher of the standard.
-/

import FoundationLang.Library.Aes

namespace FoundationLang.Crypto

open List

open Library Library.Aes

variable {ws : List (List UInt8)} {state : List UInt8}

/-! ### Bytes -/

/-- `fdn_aes_sbox`. -/
def aesSboxTable : List UInt8 :=
  [0x63, 0x7c, 0x77, 0x7b, 0xf2, 0x6b, 0x6f, 0xc5, 0x30, 0x01, 0x67, 0x2b, 0xfe, 0xd7, 0xab, 0x76,
    0xca, 0x82, 0xc9, 0x7d, 0xfa, 0x59, 0x47, 0xf0, 0xad, 0xd4, 0xa2, 0xaf, 0x9c, 0xa4, 0x72, 0xc0,
    0xb7, 0xfd, 0x93, 0x26, 0x36, 0x3f, 0xf7, 0xcc, 0x34, 0xa5, 0xe5, 0xf1, 0x71, 0xd8, 0x31, 0x15,
    0x04, 0xc7, 0x23, 0xc3, 0x18, 0x96, 0x05, 0x9a, 0x07, 0x12, 0x80, 0xe2, 0xeb, 0x27, 0xb2, 0x75,
    0x09, 0x83, 0x2c, 0x1a, 0x1b, 0x6e, 0x5a, 0xa0, 0x52, 0x3b, 0xd6, 0xb3, 0x29, 0xe3, 0x2f, 0x84,
    0x53, 0xd1, 0x00, 0xed, 0x20, 0xfc, 0xb1, 0x5b, 0x6a, 0xcb, 0xbe, 0x39, 0x4a, 0x4c, 0x58, 0xcf,
    0xd0, 0xef, 0xaa, 0xfb, 0x43, 0x4d, 0x33, 0x85, 0x45, 0xf9, 0x02, 0x7f, 0x50, 0x3c, 0x9f, 0xa8,
    0x51, 0xa3, 0x40, 0x8f, 0x92, 0x9d, 0x38, 0xf5, 0xbc, 0xb6, 0xda, 0x21, 0x10, 0xff, 0xf3, 0xd2,
    0xcd, 0x0c, 0x13, 0xec, 0x5f, 0x97, 0x44, 0x17, 0xc4, 0xa7, 0x7e, 0x3d, 0x64, 0x5d, 0x19, 0x73,
    0x60, 0x81, 0x4f, 0xdc, 0x22, 0x2a, 0x90, 0x88, 0x46, 0xee, 0xb8, 0x14, 0xde, 0x5e, 0x0b, 0xdb,
    0xe0, 0x32, 0x3a, 0x0a, 0x49, 0x06, 0x24, 0x5c, 0xc2, 0xd3, 0xac, 0x62, 0x91, 0x95, 0xe4, 0x79,
    0xe7, 0xc8, 0x37, 0x6d, 0x8d, 0xd5, 0x4e, 0xa9, 0x6c, 0x56, 0xf4, 0xea, 0x65, 0x7a, 0xae, 0x08,
    0xba, 0x78, 0x25, 0x2e, 0x1c, 0xa6, 0xb4, 0xc6, 0xe8, 0xdd, 0x74, 0x1f, 0x4b, 0xbd, 0x8b, 0x8a,
    0x70, 0x3e, 0xb5, 0x66, 0x48, 0x03, 0xf6, 0x0e, 0x61, 0x35, 0x57, 0xb9, 0x86, 0xc1, 0x1d, 0x9e,
    0xe1, 0xf8, 0x98, 0x11, 0x69, 0xd9, 0x8e, 0x94, 0x9b, 0x1e, 0x87, 0xe9, 0xce, 0x55, 0x28, 0xdf,
    0x8c, 0xa1, 0x89, 0x0d, 0xbf, 0xe6, 0x42, 0x68, 0x41, 0x99, 0x2d, 0x0f, 0xb0, 0x54, 0xbb, 0x16]

/-- `fdn_aes_sbox[value]`. -/
def aesSbox (value : UInt8) : UInt8 :=
  aesSboxTable.getD value.toNat 0

/-- `fdn_aes_xtime`. -/
def aesXtime (value : UInt8) : UInt8 :=
  (value <<< 1) ^^^ ((value >>> 7) * 0x1b)

/-! ### The round keys -/

/-- The word `temporary` of a round of the loop, and the round constant behind it. -/
def aesTemporary (keys : List UInt8) (rcon : UInt8) : List UInt8 × UInt8 :=
  let temporary := (keys.drop (keys.length - 4)).take 4
  if keys.length % 32 = 0 then
    ([aesSbox (temporary.getD 1 0) ^^^ rcon, aesSbox (temporary.getD 2 0),
      aesSbox (temporary.getD 3 0), aesSbox (temporary.getD 0 0)], aesXtime rcon)
  else if keys.length % 32 = 16 then (temporary.map aesSbox, rcon)
  else (temporary, rcon)

/-- The loop over the bytes of `temporary`. -/
def aesFill : List UInt8 → List UInt8 → List UInt8
  | keys, [] => keys
  | keys, byte :: rest =>
    if keys.length < 240 then aesFill (keys ++ [keys.getD (keys.length - 32) 0 ^^^ byte]) rest
    else keys

/-- The loop over the words; the fuel bounds their number. -/
def aesExpandLoop : ℕ → List UInt8 → UInt8 → List UInt8
  | 0, keys, _ => keys
  | fuel + 1, keys, rcon =>
    if keys.length < 240 then
      let (temporary, rcon) := aesTemporary keys rcon
      aesExpandLoop fuel (aesFill keys temporary) rcon
    else keys

/-- **`fdn_aes_expand_256`.** -/
def aesExpand256 (key : List UInt8) : List UInt8 :=
  aesExpandLoop 52 key 1

/-! ### A block -/

/-- `fdn_aes_add_round_key`: the state has 16 bytes, the key at least as many. -/
def aesAddRoundKey (state key : List UInt8) : List UInt8 :=
  List.zipWith (· ^^^ ·) state key

/-- `fdn_aes_sub_bytes`. -/
def aesSubBytes (state : List UInt8) : List UInt8 :=
  state.map aesSbox

/-- `fdn_aes_shift_rows`, one assignment after the other. -/
def aesShiftRows (state : List UInt8) : List UInt8 :=
  let temporary := state.getD 1 0
  let state := state.set 1 (state.getD 5 0)
  let state := state.set 5 (state.getD 9 0)
  let state := state.set 9 (state.getD 13 0)
  let state := state.set 13 temporary
  let temporary := state.getD 2 0
  let state := state.set 2 (state.getD 10 0)
  let state := state.set 10 temporary
  let temporary := state.getD 6 0
  let state := state.set 6 (state.getD 14 0)
  let state := state.set 14 temporary
  let temporary := state.getD 15 0
  let state := state.set 15 (state.getD 11 0)
  let state := state.set 11 (state.getD 7 0)
  let state := state.set 7 (state.getD 3 0)
  state.set 3 temporary

/-- One column of `fdn_aes_mix_columns`. -/
def aesMixColumn (value : List UInt8) : List UInt8 :=
  let total := value.getD 0 0 ^^^ value.getD 1 0 ^^^ value.getD 2 0 ^^^ value.getD 3 0
  let first := value.getD 0 0
  let value := value.set 0 (value.getD 0 0 ^^^ (total ^^^ aesXtime (value.getD 0 0 ^^^ value.getD 1 0)))
  let value := value.set 1 (value.getD 1 0 ^^^ (total ^^^ aesXtime (value.getD 1 0 ^^^ value.getD 2 0)))
  let value := value.set 2 (value.getD 2 0 ^^^ (total ^^^ aesXtime (value.getD 2 0 ^^^ value.getD 3 0)))
  value.set 3 (value.getD 3 0 ^^^ (total ^^^ aesXtime (value.getD 3 0 ^^^ first)))

/-- `fdn_aes_mix_columns`. -/
def aesMixColumns (state : List UInt8) : List UInt8 :=
  (List.range 4).flatMap fun column => aesMixColumn ((state.drop (column * 4)).take 4)

/-- One round of the loop over the rounds. -/
def aesRound (roundKeys state : List UInt8) (round : ℕ) : List UInt8 :=
  aesAddRoundKey (aesMixColumns (aesShiftRows (aesSubBytes state))) (roundKeys.drop (round * 16))

/-- **`fdn_aes_encrypt_block`.** -/
def aesEncryptBlock (input roundKeys : List UInt8) : List UInt8 :=
  let state := (List.range' 1 13).foldl (aesRound roundKeys) (aesAddRoundKey input roundKeys)
  aesAddRoundKey (aesShiftRows (aesSubBytes state)) (roundKeys.drop 224)

/-! ### The bytes of the standard -/

theorem aesSboxTable_eq : aesSboxTable = (List.range 256).map fun v => subByte (UInt8.ofNat v) := by
  decide +kernel

theorem aesSbox_eq (value : UInt8) : aesSbox value = subByte value := by
  unfold aesSbox
  rw [aesSboxTable_eq, getD_eq_getElem?_getD, List.getElem?_map,
    List.getElem?_range value.toNat_lt, Option.map_some, Option.getD_some, UInt8.ofNat_toNat]

theorem forall_byte {holds : UInt8 → Prop} (all : ∀ value : Fin 256, holds (UInt8.ofNat value))
    (value : UInt8) : holds value := by
  have := all ⟨value.toNat, value.toNat_lt⟩
  rwa [UInt8.ofNat_toNat] at this

theorem aesXtime_eq (v : UInt8) : aesXtime v = UInt8.ofNat (xTimes v.toNat) :=
  @forall_byte (fun v => aesXtime v = UInt8.ofNat (xTimes v.toNat))
    (by decide +kernel) v

theorem scale_two (value : UInt8) : scale 2 value = aesXtime value :=
  @forall_byte (fun value => scale 2 value = aesXtime value) (by decide +kernel) value

theorem scale_three (value : UInt8) : scale 3 value = aesXtime value ^^^ value :=
  @forall_byte (fun value => scale 3 value = aesXtime value ^^^ value) (by decide +kernel) value

theorem shiftRight_seven (v : UInt8) : v >>> 7 = 0 ∨ v >>> 7 = 1 :=
  @forall_byte (fun v => v >>> 7 = 0 ∨ v >>> 7 = 1) (by decide +kernel) v

/-- The multiplication with `x` is linear. -/
theorem aesXtime_xor (left right : UInt8) :
    aesXtime (left ^^^ right) = aesXtime left ^^^ aesXtime right := by
  unfold aesXtime
  have linear : (left >>> 7 ^^^ right >>> 7) * (0x1b : UInt8) =
      left >>> 7 * (0x1b : UInt8) ^^^ right >>> 7 * (0x1b : UInt8) := by
    rcases shiftRight_seven left with first | first <;>
      rcases shiftRight_seven right with y | y <;> rw [first, y] <;> rfl
  rw [UInt8.shiftLeft_xor, UInt8.shiftRight_xor, linear]
  ac_rfl

/-! ### The round keys of the standard -/

/-- The bytes that the inner loop appends. -/
theorem aesFill_eq {keys temporary : List UInt8} (enough : 32 ≤ keys.length)
    (short : temporary.length ≤ 32) (room : keys.length + temporary.length ≤ 240) :
    aesFill keys temporary =
      keys ++ xorWord ((keys.drop (keys.length - 32)).take temporary.length) temporary := by
  induction temporary generalizing keys with
  | nil =>
    unfold aesFill xorWord
    rw [zipWith_nil_right, append_nil]
  | cons b rest ih =>
    rw [length_cons] at short room
    have position : keys.length - 32 < keys.length := by omega
    have begins : keys.drop (keys.length - 32) =
        keys.getD (keys.length - 32) 0 :: keys.drop (keys.length - 32 + 1) := by
      rw [drop_eq_getElem_cons position, getD_eq_getElem?_getD,
        List.getElem?_eq_getElem position, Option.getD_some]
    have length : (keys ++ [keys.getD (keys.length - 32) 0 ^^^ b]).length = keys.length + 1 :=
      length_append
    -- The byte that was appended is not read yet.
    have behind : ((keys ++ [keys.getD (keys.length - 32) 0 ^^^ b]).drop
        (keys.length + 1 - 32)).take rest.length =
          (keys.drop (keys.length - 32 + 1)).take rest.length := by
      rw [show keys.length + 1 - 32 = keys.length - 32 + 1 by omega,
        drop_append_of_le_length (by omega), take_append_of_le_length]
      rw [length_drop]
      omega
    rw [aesFill, if_pos (by omega), ih (by rw [length]; omega) (by omega) (by rw [length]; omega),
      length, behind, begins, length_cons, take_succ_cons, append_assoc]
    rfl

section Words

section

variable (four : ∀ word ∈ ws, word.length = 4)
include four

theorem flatten_length :
    ws.flatten.length = 4 * ws.length := by
  induction ws with
  | nil => rfl
  | cons word ws ih =>
    rw [flatten_cons, length_append, four word mem_cons_self,
      ih fun y mem => four y (mem_cons_of_mem _ mem), length_cons]
    omega

/-- The bytes from a word on. -/
theorem flatten_drop (i : ℕ) :
    ws.flatten.drop (4 * i) = (ws.drop i).flatten := by
  induction ws generalizing i with
  | nil => rw [drop_nil, flatten_nil, drop_nil]
  | cons word ws ih =>
    cases i with
    | zero => rfl
    | succ i =>
      rw [flatten_cons, Nat.mul_succ, Nat.add_comm, ← drop_drop,
        drop_left' (four word mem_cons_self), drop_succ_cons]
      exact ih (fun y mem => four y (mem_cons_of_mem _ mem)) i

theorem flatten_word {i : ℕ}
    (inside : i < ws.length) :
    (ws.flatten.drop (4 * i)).take 4 = ws.getD i [] := by
  rw [flatten_drop four, drop_eq_getElem_cons inside, flatten_cons,
    take_left' (four _ (getElem_mem inside)), getD_eq_getElem?_getD,
    List.getElem?_eq_getElem inside, Option.getD_some]

end

/-- The round constant of the loop when there are that many words. -/
def constantAt (count : ℕ) : UInt8 :=
  UInt8.ofNat (xTimes^[(count - 1) / 8] 1)

theorem xTimes_lt {v : ℕ} (small : v < 256) : xTimes v < 256 := by
  have all : ∀ v : Fin 256, xTimes v < 256 := by decide +kernel
  exact all ⟨v, small⟩

theorem constantAt_next {count : ℕ} (large : 8 ≤ count) :
    constantAt (count + 1) =
      if count % 8 = 0 then aesXtime (constantAt count) else constantAt count := by
  unfold constantAt
  split
  · have more : (count + 1 - 1) / 8 = (count - 1) / 8 + 1 := by omega
    have small : xTimes^[(count - 1) / 8] 1 < 256 := by
      generalize (count - 1) / 8 = power
      induction power with
      | zero => exact Nat.lt_of_sub_ne_zero (by decide)
      | succ power ih =>
        rw [Function.iterate_succ_apply']
        exact xTimes_lt ih
    rw [more, Function.iterate_succ_apply', aesXtime_eq, UInt8.toNat_ofNat_of_lt' small]
  · have same : (count + 1 - 1) / 8 = (count - 1) / 8 := by omega
    rw [same]

/-- **One round of the loop** appends the next word. -/
theorem aesTemporary_eq (four : ∀ word ∈ ws, word.length = 4) (large : 8 ≤ ws.length) :
    nextWord ws = xorWord (ws.getD (ws.length - 8) [])
        (aesTemporary ws.flatten (constantAt ws.length)).1 ∧
      (aesTemporary ws.flatten (constantAt ws.length)).1.length = 4 ∧
      (aesTemporary ws.flatten (constantAt ws.length)).2 = constantAt (ws.length + 1) := by
  have length := flatten_length four
  have previous : (ws.flatten.drop (ws.flatten.length - 4)).take 4 =
      ws.getD (ws.length - 1) [] := by
    rw [length, show 4 * ws.length - 4 = 4 * (ws.length - 1) by omega]
    exact flatten_word four (by omega)
  have size : (ws.getD (ws.length - 1) []).length = 4 := by
    rw [getD_eq_getElem?_getD, List.getElem?_eq_getElem (by omega), Option.getD_some]
    exact four _ (getElem_mem _)
  unfold aesTemporary nextWord
  dsimp only
  rw [previous, length, constantAt_next large]
  generalize ws.getD (ws.length - 1) [] = word at size
  obtain ⟨a, b, c, d, rfl⟩ : ∃ a b c d, word = [a, b, c, d] := by
    let [a, b, c, d] := word
    exact ⟨a, b, c, d, rfl⟩
  by_cases first : ws.length % 8 = 0
  · rw [if_pos (show 4 * ws.length % 32 = 0 by omega), if_pos first, if_pos first]
    refine ⟨?_, rfl, rfl⟩
    have constant : roundConstant (ws.length / 8) = [constantAt ws.length, 0, 0, 0] := by
      unfold roundConstant constantAt
      rw [show ws.length / 8 - 1 = (ws.length - 1) / 8 by omega]
    rw [constant, aesSbox_eq, aesSbox_eq, aesSbox_eq, aesSbox_eq]
    show xorWord _ [subByte b ^^^ constantAt ws.length, subByte c ^^^ 0, subByte d ^^^ 0,
      subByte a ^^^ 0] = _
    rw [UInt8.xor_zero, UInt8.xor_zero, UInt8.xor_zero]
    rfl
  · rw [if_neg (show ¬4 * ws.length % 32 = 0 by omega), if_neg first, if_neg first]
    by_cases m : ws.length % 8 = 4
    · rw [if_pos (show 4 * ws.length % 32 = 16 by omega), if_pos m]
      refine ⟨?_, rfl, rfl⟩
      rw [funext aesSbox_eq]
    · rw [if_neg (show ¬4 * ws.length % 32 = 16 by omega), if_neg m]
      exact ⟨rfl, rfl, rfl⟩

theorem aesExpandLoop_eq {fuel : ℕ} (four : ∀ word ∈ ws, word.length = 4) (large : 8 ≤ ws.length)
    (left : ws.length + fuel = 60) :
    aesExpandLoop fuel ws.flatten (constantAt ws.length) =
      ((fun ws => ws ++ [nextWord ws])^[fuel] ws).flatten ∧
    ∀ word ∈ (fun ws => ws ++ [nextWord ws])^[fuel] ws, word.length = 4 := by
  induction fuel generalizing ws with
  | zero => exact ⟨rfl, four⟩
  | succ fuel ih =>
    obtain ⟨next, size, constant⟩ := aesTemporary_eq four large
    have length := flatten_length four
    have lengthNext : (ws ++ [nextWord ws]).length = ws.length + 1 := length_append
    have filled : aesFill ws.flatten (aesTemporary ws.flatten (constantAt ws.length)).1 =
        (ws ++ [nextWord ws]).flatten := by
      rw [aesFill_eq (by omega) (by omega) (by omega), size, length,
        show 4 * ws.length - 32 = 4 * (ws.length - 8) by omega,
        flatten_word four (by omega), ← next, flatten_append, flatten_singleton]
    have fourNext : ∀ word ∈ ws ++ [nextWord ws], word.length = 4 := by
      intro word mem
      rcases mem_append.mp mem with old | new
      · exact four word old
      · rw [mem_singleton.mp new, next, xorWord_length, size, getD_eq_getElem?_getD,
          List.getElem?_eq_getElem (by omega), Option.getD_some, four _ (getElem_mem _)]
        rfl
    rw [aesExpandLoop, if_pos (by omega)]
    dsimp only
    rw [filled, constant, ← lengthNext, Function.iterate_succ_apply]
    exact ih fourNext (by omega) (by omega)

end Words

/-- **The round keys are the words of the key schedule**, which has 60 of them. -/
theorem aesExpand256_eq {key : List UInt8} (sized : key.length = 32) :
    aesExpand256 key = (keyWords key).flatten ∧ ∀ word ∈ keyWords key, word.length = 4 := by
  have count : (blocks 4 key).length = 8 := by
    rw [blocks_length, sized]
  have loop := @aesExpandLoop_eq (blocks 4 key) 52
    (fun word => length_of_mem_blocks) (by rw [count]) (by rw [count])
  rw [count, blocks_flatten (by decide) (by rw [sized]; decide)] at loop
  exact loop

theorem keyWords_length {key : List UInt8} (sized : key.length = 32) : (keyWords key).length = 60 := by
  have grown : ∀ (count : ℕ) (ws : List (List UInt8)),
      ((fun ws => ws ++ [nextWord ws])^[count] ws).length = ws.length + count := by
    intro count
    induction count with
    | zero => exact fun _ => rfl
    | succ count ih =>
      intro ws
      rw [Function.iterate_succ_apply, ih, length_append, length_singleton]
      omega
  unfold keyWords
  rw [grown, blocks_length, sized]

/-! ### The cipher of the standard -/

theorem aesSubBytes_eq : ∀ {state : List UInt8}, state.length = 16 → aesSubBytes state = subBytes state
  | [_, _, _, _, _, _, _, _, _, _, _, _, _, _, _, _], _ => by
    unfold aesSubBytes
    rw [funext aesSbox_eq]
    rfl

theorem aesShiftRows_eq : ∀ {state : List UInt8}, state.length = 16 →
    aesShiftRows state = shiftRows state
  | [_, _, _, _, _, _, _, _, _, _, _, _, _, _, _, _], _ => rfl

theorem aesMixColumn_eq (a b c d : UInt8) :
    aesMixColumn [a, b, c, d] =
      [scale 2 a ^^^ scale 3 b ^^^ c ^^^ d, scale 2 b ^^^ scale 3 c ^^^ d ^^^ a,
        scale 2 c ^^^ scale 3 d ^^^ a ^^^ b, scale 2 d ^^^ scale 3 a ^^^ b ^^^ c] := by
  have cancel : ∀ a rest : UInt8, a ^^^ (a ^^^ rest) = rest := fun a rest => by
    rw [← UInt8.xor_assoc, UInt8.xor_self, UInt8.zero_xor]
  -- What a byte gets is the sum of the others, and twice its own sum with the next.
  have byte : ∀ a b c d : UInt8, a ^^^ ((a ^^^ (b ^^^ (c ^^^ d))) ^^^ aesXtime (a ^^^ b)) =
      scale 2 a ^^^ scale 3 b ^^^ c ^^^ d := fun a b c d => by
    rw [scale_two, scale_three, aesXtime_xor, UInt8.xor_assoc a, cancel]
    ac_rfl
  rw [← byte a b c d, ← byte b c d a, ← byte c d a b, ← byte d a b c]
  unfold aesMixColumn
  simp only [getD_cons_zero, getD_cons_succ, set_cons_zero, set_cons_succ,
    List.cons.injEq, and_true]
  refine ⟨?_, ?_, ?_, ?_⟩ <;> ac_rfl

theorem aesMixColumns_eq : ∀ {state : List UInt8}, state.length = 16 →
    aesMixColumns state = mixColumns state
  | [a, b, c, d, e, f, g, h, i, j, k, l, m, n, o, p], _ => by
    show aesMixColumn [a, b, c, d] ++ (aesMixColumn [e, f, g, h] ++ (aesMixColumn [i, j, k, l] ++
      (aesMixColumn [m, n, o, p] ++ []))) = _
    rw [aesMixColumn_eq, aesMixColumn_eq, aesMixColumn_eq, aesMixColumn_eq]
    rfl

section

variable (four : ∀ word ∈ ws, word.length = 4)
include four

theorem aesAddRoundKey_eq (sized : state.length = 16)
    {round : ℕ} (inside : 4 * round + 4 ≤ ws.length) :
    aesAddRoundKey state (ws.flatten.drop (round * 16)) = addRoundKey ws round state := by
  have bytes : ∀ index < ws.length, ∃ a b c d, ws.getD index [] = [a, b, c, d] := by
    intro index below
    have size : (ws.getD index []).length = 4 := by
      rw [getD_eq_getElem?_getD, List.getElem?_eq_getElem below, Option.getD_some]
      exact four _ (getElem_mem _)
    generalize ws.getD index [] = word at size
    let [a, b, c, d] := word
    exact ⟨a, b, c, d, rfl⟩
  have begins : ∀ index < ws.length,
      (ws.drop index).flatten = ws.getD index [] ++ (ws.drop (index + 1)).flatten := by
    intro index below
    rw [drop_eq_getElem_cons below, flatten_cons, getD_eq_getElem?_getD,
      List.getElem?_eq_getElem below, Option.getD_some]
  obtain ⟨a, b, c, d, first⟩ := bytes (4 * round + 0) (by omega)
  obtain ⟨e, f, g, h, second⟩ := bytes (4 * round + 1) (by omega)
  obtain ⟨i, j, k, l, third⟩ := bytes (4 * round + 2) (by omega)
  obtain ⟨m, n, o, p, fourth⟩ := bytes (4 * round + 3) (by omega)
  have key : ws.flatten.drop (round * 16) = [a, b, c, d] ++ ([e, f, g, h] ++ ([i, j, k, l] ++
      ([m, n, o, p] ++ (ws.drop (4 * round + 4)).flatten))) := by
    rw [show round * 16 = 4 * (4 * round) by omega, flatten_drop four, begins _ (by omega),
      begins _ (by omega), begins _ (by omega), begins _ (by omega), ← first, ← second, ← third, ← fourth]
    rfl
  rw [key]
  unfold aesAddRoundKey addRoundKey
  let [s, t, u, v, w, x, y, z, s', t', u', v', w', x', y', z'] := state
  show _ = [s ^^^ (ws.getD (4 * round + 0) []).getD 0 0, t ^^^ (ws.getD (4 * round + 0) []).getD 1 0,
    u ^^^ (ws.getD (4 * round + 0) []).getD 2 0, v ^^^ (ws.getD (4 * round + 0) []).getD 3 0,
    w ^^^ (ws.getD (4 * round + 1) []).getD 0 0, x ^^^ (ws.getD (4 * round + 1) []).getD 1 0,
    y ^^^ (ws.getD (4 * round + 1) []).getD 2 0, z ^^^ (ws.getD (4 * round + 1) []).getD 3 0,
    s' ^^^ (ws.getD (4 * round + 2) []).getD 0 0, t' ^^^ (ws.getD (4 * round + 2) []).getD 1 0,
    u' ^^^ (ws.getD (4 * round + 2) []).getD 2 0, v' ^^^ (ws.getD (4 * round + 2) []).getD 3 0,
    w' ^^^ (ws.getD (4 * round + 3) []).getD 0 0, x' ^^^ (ws.getD (4 * round + 3) []).getD 1 0,
    y' ^^^ (ws.getD (4 * round + 3) []).getD 2 0, z' ^^^ (ws.getD (4 * round + 3) []).getD 3 0]
  rw [first, second, third, fourth]
  rfl

theorem aesRound_eq (sized : state.length = 16) {round : ℕ}
    (inside : 4 * round + 4 ≤ ws.length) :
    aesRound ws.flatten state round = middleRound ws state round := by
  unfold aesRound middleRound
  rw [aesSubBytes_eq sized, aesShiftRows_eq (subBytes_length _), aesMixColumns_eq (shiftRows_length _),
    aesAddRoundKey_eq four (mixColumns_length _) inside]

theorem aesRounds_eq (sized : state.length = 16)
    {k : List ℕ} (inside : ∀ round ∈ k, 4 * round + 4 ≤ ws.length) :
    k.foldl (aesRound ws.flatten) state = k.foldl (middleRound ws) state ∧
      (k.foldl (middleRound ws) state).length = 16 := by
  induction k generalizing state with
  | nil =>
    rw [foldl_nil, foldl_nil]
    exact ⟨rfl, sized⟩
  | cons round k ih =>
    rw [foldl_cons, foldl_cons, aesRound_eq four sized (inside round mem_cons_self)]
    exact ih (middleRound_length ..) fun y mem =>
      inside y (mem_cons_of_mem _ mem)

theorem aesEncryptBlock_words {input : List UInt8}
    (count : ws.length = 60) (block : input.length = 16) :
    aesEncryptBlock input ws.flatten = addRoundKey ws 14 (shiftRows (subBytes
      ((List.range' 1 13).foldl (middleRound ws) (addRoundKey ws 0 input)))) := by
  unfold aesEncryptBlock
  have start : aesAddRoundKey input ws.flatten = addRoundKey ws 0 input :=
    @aesAddRoundKey_eq ws input four block 0 (by omega)
  obtain ⟨same, length⟩ := @aesRounds_eq ws _ four (addRoundKey_length ws 0 input)
    (List.range' 1 13) fun round mem => by
      rw [mem_range'_1] at mem
      omega
  dsimp only
  rw [start, same, aesSubBytes_eq length, aesShiftRows_eq (subBytes_length _)]
  exact @aesAddRoundKey_eq ws _ four (shiftRows_length _) 14 (by omega)

end

/-- **The cipher of a block.** -/
theorem aesEncryptBlock_eq {key input : List UInt8} (sized : key.length = 32)
    (block : input.length = 16) : aesEncryptBlock input (aesExpand256 key) = cipher key input := by
  obtain ⟨expanded, four⟩ := aesExpand256_eq sized
  rw [expanded, aesEncryptBlock_words four (keyWords_length sized) block]
  rfl

end FoundationLang.Crypto
