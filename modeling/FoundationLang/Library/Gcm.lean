/-
**GCM**, as SP 800-38D defines it on bit strings, for nonces of 96 bits and tags of 128.

* `multiply`, `ghash` — the product of blocks, and the hash of a string of blocks.
* `inc32`, `gctr` — counter mode from a first counter block.
* `tag`, `encrypt`, `decrypt` — authenticated encryption and decryption over a block cipher.
-/

import FoundationLang.Library.BitStrings

namespace FoundationLang.Library.Gcm

open List

/-- The sum of strings, without what is behind the shorter one. -/
def add (first second : List Bool) : List Bool :=
  List.zipWith xor first second

/-- The block of zeros. -/
def zeroBlock : List Bool :=
  List.replicate 128 false

/-- `R`, the block that stands for `x ^ 128`. -/
def reduction : List Bool :=
  [true, true, true, false, false, false, false, true] ++ List.replicate 120 false

/-- A block times `x`. -/
def shift (block : List Bool) : List Bool :=
  let half := false :: block.dropLast
  if block.getLast? = some true then add half reduction else half

/-- One bit of the first factor. -/
def multiplyStep (state : List Bool × List Bool) (bit : Bool) : List Bool × List Bool :=
  (if bit then add state.1 state.2 else state.1, shift state.2)

/-- **The product of two blocks.** -/
def multiply (first second : List Bool) : List Bool :=
  (first.foldl multiplyStep (zeroBlock, second)).1

/-- One block of the hash. -/
def ghashStep (key state block : List Bool) : List Bool :=
  multiply (add state block) key

/-- **The hash of a string of blocks.** -/
def ghash (key string : List Bool) : List Bool :=
  (blocks 128 string).foldl (ghashStep key) zeroBlock

/-- A string with the zeros that complete its last block. -/
def pad (string : List Bool) : List Bool :=
  string ++ List.replicate ((128 - string.length % 128) % 128) false

/-- The next counter block. -/
def inc32 (block : List Bool) : List Bool :=
  block.take 96 ++ digits 32 ((number (block.drop 96) + 1) % 2 ^ 32)

section Cipher

variable (ciph : List Bool → List Bool)

/-- The cipher blocks of a row of counter blocks. -/
def keystream (counter : List Bool) (count : ℕ) : List Bool :=
  (List.range count).flatMap fun index => ciph (inc32^[index] counter)

/-- **Counter mode.** -/
def gctr (counter string : List Bool) : List Bool :=
  add string (keystream ciph counter ((string.length + 127) / 128))

/-- The block before the first counter block of a text. -/
def preCounter (nonce : List Bool) : List Bool :=
  nonce ++ List.replicate 31 false ++ [true]

/-- **The tag** of associated data and a ciphertext. -/
def tag (nonce associated cipher : List Bool) : List Bool :=
  gctr ciph (preCounter nonce) (ghash (ciph zeroBlock) (pad associated ++ pad cipher ++
    (digits 64 associated.length ++ digits 64 cipher.length)))

/-- The ciphertext and its tag. -/
def encrypt (nonce plain associated : List Bool) : List Bool × List Bool :=
  let cipher := gctr ciph (inc32 (preCounter nonce)) plain
  (cipher, tag ciph nonce associated cipher)

/-- The text, if the tag is right. -/
def decrypt (nonce cipher associated given : List Bool) : Option (List Bool) :=
  if given = tag ciph nonce associated cipher then
    some (gctr ciph (inc32 (preCounter nonce)) cipher)
  else none

end Cipher

/-! ### Blocks -/

theorem add_length (x y : List Bool) :
    (add x y).length = min x.length y.length :=
  length_zipWith

theorem add_add {string key : List Bool} (covered : string.length ≤ key.length) :
    add (add string key) key = string := by
  induction string generalizing key with
  | nil => rfl
  | cons bit string ih =>
    cases key with
    | nil => exact absurd covered (Nat.not_succ_le_zero _)
    | cons =>
      unfold add at *
      rw [zipWith_cons_cons, zipWith_cons_cons, ih (Nat.le_of_succ_le_succ covered),
        Bool.xor_assoc, Bool.xor_self, Bool.xor_false]

theorem add_append {x y left right : List Bool} (same : x.length = left.length) :
    add (x ++ y) (left ++ right) = add x left ++ add y right :=
  zipWith_append same

theorem pad_length (string : List Bool) : 128 ∣ (pad string).length := by
  unfold pad
  rw [length_append, length_replicate]
  omega

theorem pad_short {string : List Bool} (some' : string ≠ []) (short : string.length < 128) :
    pad string = string ++ List.replicate (128 - string.length) false := by
  have := length_pos_of_ne_nil some'
  unfold pad
  rw [Nat.mod_eq_of_lt short, Nat.mod_eq_of_lt (by omega)]

theorem pad_block {block : List Bool} (full : block.length = 128) (string : List Bool) :
    pad (block ++ string) = block ++ pad string := by
  unfold pad
  rw [length_append, full, Nat.add_mod_left, append_assoc]

theorem pad_nil : pad [] = [] :=
  rfl

theorem shift_length {block : List Bool} (full : block.length = 128) : (shift block).length = 128 := by
  have half : (false :: block.dropLast).length = 128 := by
    rw [length_cons, length_dropLast, full]
  unfold shift
  split
  · unfold reduction
    rw [add_length, half, length_append, length_replicate]
    rfl
  · exact half

theorem multiplyStep_length (bit : Bool) {s : List Bool × List Bool}
    (product : s.1.length = 128) (factor : s.2.length = 128) :
    (multiplyStep s bit).1.length = 128 := by
  cases bit
  · exact product
  · exact (add_length _ _).trans (by rw [product, factor]; rfl)

theorem multiply_length (x : List Bool) {y : List Bool} (full : y.length = 128) :
    (multiply x y).length = 128 := by
  have steps : ∀ state : List Bool × List Bool, state.1.length = 128 → state.2.length = 128 →
      (x.foldl multiplyStep state).1.length = 128 := by
    induction x with
    | nil => exact fun _ product _ => product
    | cons bit x ih =>
      intro state product factor
      exact ih _ (multiplyStep_length bit product factor) (shift_length factor)
  exact steps _ length_replicate full

theorem ghash_length {key : List Bool} (full : key.length = 128) (string : List Bool) :
    (ghash key string).length = 128 := by
  unfold ghash
  obtain nothing | ⟨_, _, split⟩ := eq_nil_or_concat (blocks 128 string)
  · rw [nothing]
    exact length_replicate
  · rw [split, concat_eq_append, foldl_append]
    exact multiply_length _ full

/-! ### Counter mode -/

section Cipher

variable {ciph : List Bool → List Bool}

theorem keystream_succ (c : List Bool) (count : ℕ) :
    keystream ciph c (count + 1) = ciph c ++ keystream ciph (inc32 c) count := by
  unfold keystream
  rw [range_succ_eq_map, flatMap_cons, flatMap_map]
  rfl

theorem gctr_block {block : List Bool} (sized : ∀ input, (ciph input).length = 128)
    (full : block.length = 128) (c string : List Bool) :
    gctr ciph c (block ++ string) =
      add block (ciph c) ++ gctr ciph (inc32 c) string := by
  unfold gctr
  have count : ((block ++ string).length + 127) / 128 = (string.length + 127) / 128 + 1 := by
    rw [length_append, full]
    omega
  rw [count, keystream_succ, add_append (full.trans (sized c).symm)]

/-- A string that one block covers. -/
theorem gctr_short {string : List Bool} (some' : string ≠ []) (short : string.length ≤ 128)
    (c : List Bool) : gctr ciph c string = add string (ciph c) := by
  have := length_pos_of_ne_nil some'
  unfold gctr
  have count : (string.length + 127) / 128 = 0 + 1 := by omega
  rw [count, keystream_succ]
  have nothing : keystream ciph (inc32 c) 0 = [] := rfl
  rw [nothing, append_nil]

theorem gctr_nil (c : List Bool) : gctr ciph c [] = [] :=
  rfl

section

variable (sized : ∀ input, (ciph input).length = 128)
include sized

theorem keystream_length (c : List Bool)
    (count : ℕ) : (keystream ciph c count).length = 128 * count := by
  induction count generalizing c with
  | zero => rfl
  | succ count ih =>
    rw [keystream_succ, length_append, sized, ih, Nat.mul_succ, Nat.add_comm]

theorem gctr_length (c string : List Bool) :
    (gctr ciph c string).length = string.length := by
  unfold gctr
  rw [add_length, keystream_length sized]
  omega

/-- Counter mode undoes itself. -/
theorem gctr_gctr (c string : List Bool) :
    gctr ciph c (gctr ciph c string) = string := by
  have length := gctr_length sized c string
  unfold gctr at *
  rw [length]
  refine add_add ?_
  rw [keystream_length sized]
  omega

/-- **What is encrypted is decrypted.** -/
theorem decrypt_encrypt
    (nonce plain associated : List Bool) :
    decrypt ciph nonce (encrypt ciph nonce plain associated).1 associated
      (encrypt ciph nonce plain associated).2 = some plain := by
  unfold decrypt encrypt
  rw [if_pos rfl, gctr_gctr sized]

end

end Cipher

end FoundationLang.Library.Gcm
