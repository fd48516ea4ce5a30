/-
**SHA-256 of the runtime and of the compiler.**

Both keep the words so far and a block that is filled: `crypto.c` counts the bits of its input, the class
`Sha256` of the compiler counts the bytes and remembers that it is finished.

* `init`, `update`, `finish` — `fdn_sha256_init`, `fdn_sha256_update` and `fdn_sha256_finish`.
-/

import FoundationLang.Library.Sha256

namespace FoundationLang.Crypto

open List

open Library Library.Sha256

/-- The text of a panic or of an exception. -/
abbrev Panic := String

/-! ### Words -/

/-- `fdn_rotate_right` and `std::rotr`. -/
def rotateRight (value count : UInt32) : UInt32 :=
  value >>> count ||| value <<< (32 - count)

/-- `fdn_load_u32_be` and `loadWord`, at an offset. -/
def loadWord (bytes : List UInt8) (offset : ℕ) : UInt32 :=
  (bytes.getD offset 0).toUInt32 <<< 24 ||| (bytes.getD (offset + 1) 0).toUInt32 <<< 16 |||
    (bytes.getD (offset + 2) 0).toUInt32 <<< 8 ||| (bytes.getD (offset + 3) 0).toUInt32

/-- `fdn_store_u32_be` and `storeWord`. -/
def storeWord (word : UInt32) : List UInt8 :=
  [(word >>> 24).toUInt8, (word >>> 16).toUInt8, (word >>> 8).toUInt8, word.toUInt8]

/-- `fdn_sha256_constants`. -/
def sha256Constants : List UInt32 :=
  [0x428a2f98, 0x71374491, 0xb5c0fbcf, 0xe9b5dba5,
    0x3956c25b, 0x59f111f1, 0x923f82a4, 0xab1c5ed5,
    0xd807aa98, 0x12835b01, 0x243185be, 0x550c7dc3,
    0x72be5d74, 0x80deb1fe, 0x9bdc06a7, 0xc19bf174,
    0xe49b69c1, 0xefbe4786, 0x0fc19dc6, 0x240ca1cc,
    0x2de92c6f, 0x4a7484aa, 0x5cb0a9dc, 0x76f988da,
    0x983e5152, 0xa831c66d, 0xb00327c8, 0xbf597fc7,
    0xc6e00bf3, 0xd5a79147, 0x06ca6351, 0x14292967,
    0x27b70a85, 0x2e1b2138, 0x4d2c6dfc, 0x53380d13,
    0x650a7354, 0x766a0abb, 0x81c2c92e, 0x92722c85,
    0xa2bfe8a1, 0xa81a664b, 0xc24b8b70, 0xc76c51a3,
    0xd192e819, 0xd6990624, 0xf40e3585, 0x106aa070,
    0x19a4c116, 0x1e376c08, 0x2748774c, 0x34b0bcb5,
    0x391c0cb3, 0x4ed8aa4a, 0x5b9cca4f, 0x682e6ff3,
    0x748f82ee, 0x78a5636f, 0x84c87814, 0x8cc70208,
    0x90befffa, 0xa4506ceb, 0xbef9a3f7, 0xc67178f2]

/-- `constants` of the compiler. -/
def compilerConstants : List UInt32 :=
  [0x428a2f98, 0x71374491, 0xb5c0fbcf, 0xe9b5dba5, 0x3956c25b,
    0x59f111f1, 0x923f82a4, 0xab1c5ed5, 0xd807aa98, 0x12835b01,
    0x243185be, 0x550c7dc3, 0x72be5d74, 0x80deb1fe, 0x9bdc06a7,
    0xc19bf174, 0xe49b69c1, 0xefbe4786, 0x0fc19dc6, 0x240ca1cc,
    0x2de92c6f, 0x4a7484aa, 0x5cb0a9dc, 0x76f988da, 0x983e5152,
    0xa831c66d, 0xb00327c8, 0xbf597fc7, 0xc6e00bf3, 0xd5a79147,
    0x06ca6351, 0x14292967, 0x27b70a85, 0x2e1b2138, 0x4d2c6dfc,
    0x53380d13, 0x650a7354, 0x766a0abb, 0x81c2c92e, 0x92722c85,
    0xa2bfe8a1, 0xa81a664b, 0xc24b8b70, 0xc76c51a3, 0xd192e819,
    0xd6990624, 0xf40e3585, 0x106aa070, 0x19a4c116, 0x1e376c08,
    0x2748774c, 0x34b0bcb5, 0x391c0cb3, 0x4ed8aa4a, 0x5b9cca4f,
    0x682e6ff3, 0x748f82ee, 0x78a5636f, 0x84c87814, 0x8cc70208,
    0x90befffa, 0xa4506ceb, 0xbef9a3f7, 0xc67178f2]

/-- The words that both start with. -/
def initialState : Registers UInt32 :=
  ⟨0x6a09e667, 0xbb67ae85, 0x3c6ef372, 0xa54ff53a, 0x510e527f, 0x9b05688c, 0x1f83d9ab, 0x5be0cd19⟩

/-! ### One block -/

/-- One round of the loop that extends the words of a block; the index is their number. -/
def nextWord (words : List UInt32) : UInt32 :=
  let index := words.length
  let left := rotateRight (words.getD (index - 15) 0) 7 ^^^ rotateRight (words.getD (index - 15) 0) 18 ^^^
    words.getD (index - 15) 0 >>> 3
  let right := rotateRight (words.getD (index - 2) 0) 17 ^^^ rotateRight (words.getD (index - 2) 0) 19 ^^^
    words.getD (index - 2) 0 >>> 10
  words.getD (index - 16) 0 + left + words.getD (index - 7) 0 + right

/-- The loop that extends the words of a block. -/
def extendWords : ℕ → List UInt32 → List UInt32
  | 0, words => words
  | count + 1, words => extendWords count (words ++ [nextWord words])

/-- One round of the loop over the words. -/
def transformRound (registers : Registers UInt32) (constant word : UInt32) : Registers UInt32 :=
  let ⟨a, b, c, d, e, f, g, h⟩ := registers
  let sum1 := rotateRight e 6 ^^^ rotateRight e 11 ^^^ rotateRight e 25
  let choice := (e &&& f) ^^^ (~~~e &&& g)
  let first := h + sum1 + choice + constant + word
  let sum0 := rotateRight a 2 ^^^ rotateRight a 13 ^^^ rotateRight a 22
  let majority := (a &&& b) ^^^ (a &&& c) ^^^ (b &&& c)
  let second := sum0 + majority
  ⟨first + second, a, b, c, d + first, e, f, g⟩

/-- **`fdn_sha256_transform` and `Sha256::transform`**, with the table of the one or the other. -/
def transform (table : List UInt32) (state : Registers UInt32) (block : List UInt8) :
    Registers UInt32 :=
  let words := extendWords 48 ((List.range 16).map fun index => loadWord block (index * 4))
  state.add ((table.zip words).foldl
    (fun registers (constant, word) => transformRound registers constant word) state)

/-! ### The block that is filled -/

/-- `memcpy` and `std::copy_n` into a block. -/
def overwrite (block : List UInt8) (offset : ℕ) (bytes : List UInt8) : List UInt8 :=
  block.take offset ++ bytes ++ block.drop (offset + bytes.length)

theorem overwrite_length {block bytes : List UInt8} {i : ℕ}
    (fits : i + bytes.length ≤ block.length) :
    (overwrite block i bytes).length = block.length := by
  unfold overwrite
  rw [length_append, length_append, length_drop, length_take]
  omega

/-- **The words and the block.** What is behind the bytes in use was there before. -/
structure Hasher where
  state : Registers UInt32
  block : List UInt8
  used : ℕ
  sized : block.length = 64
  room : used < 64

/-- One round of the loop of an update. -/
def Hasher.fill (table : List UInt32) (hasher : Hasher) (part : List UInt8)
    (fits : hasher.used + part.length ≤ 64) : Hasher :=
  have sized := (overwrite_length (hasher.sized ▸ fits)).trans hasher.sized
  if full : hasher.used + part.length = 64 then
    ⟨transform table hasher.state (overwrite hasher.block hasher.used part),
      overwrite hasher.block hasher.used part, 0, sized, by decide⟩
  else
    ⟨hasher.state, overwrite hasher.block hasher.used part, hasher.used + part.length, sized,
      Nat.lt_of_le_of_ne fits full⟩

/-- How many bytes the next round of the loop takes. -/
def Hasher.count (hasher : Hasher) (value : List UInt8) : ℕ :=
  min value.length (64 - hasher.used)

theorem Hasher.count_fits (hasher : Hasher) (v : List UInt8) :
    hasher.used + (v.take (hasher.count v)).length ≤ 64 := by
  have room := hasher.room
  unfold Hasher.count
  rw [length_take]
  omega

/-- **The loop of an update.** -/
def Hasher.absorb (table : List UInt32) (hasher : Hasher) (value : List UInt8) : Hasher :=
  if value = [] then hasher
  else
    (hasher.fill table (value.take (hasher.count value)) (hasher.count_fits value)).absorb table
      (value.drop (hasher.count value))
termination_by value.length
decreasing_by
  rename_i some'
  have positive := length_pos_iff.mpr some'
  have room := hasher.room
  unfold Hasher.count
  rw [length_drop]
  omega

/-- The loop that writes the number of bits. -/
def writeBits (block : List UInt8) (bits : UInt64) : List UInt8 :=
  (List.range 8).foldl (fun block index =>
    block.set (63 - index) (bits >>> UInt64.ofNat (index * 8)).toUInt8) block

/-- **The end of a digest.** -/
def Hasher.close (table : List UInt32) (hasher : Hasher) (bits : UInt64) : List UInt8 :=
  let block := overwrite hasher.block hasher.used [0x80]
  let used := hasher.used + 1
  let (state, block, used) :=
    if used > 56 then
      let block := overwrite block used (List.replicate (64 - used) 0)
      (transform table hasher.state block, block, 0)
    else (hasher.state, block, used)
  let block := overwrite block used (List.replicate (56 - used) 0)
  let block := writeBits block bits
  (transform table state block).toList.flatMap storeWord

/-! ### The runtime -/

/-- `fdn_sha256`. -/
structure Context where
  hasher : Hasher
  length : UInt64

/-- `fdn_sha256_init`. It leaves the block as it is in memory. -/
def init (memory : List UInt8) (sized : memory.length = 64) : Context :=
  ⟨⟨initialState, memory, 0, sized, by decide⟩, 0⟩

/-- `fdn_sha256_update`; the length of a value is a `size_t`. -/
def update (context : Context) (value : List UInt8) : Except Panic Context :=
  if value.length > (18446744073709551615 - context.length.toNat) / 8 then
    .error "SHA-256 input is too large"
  else
    .ok ⟨context.hasher.absorb sha256Constants value,
      context.length + UInt64.ofNat value.length * 8⟩

/-- `fdn_sha256_finish`. -/
def finish (context : Context) : List UInt8 :=
  context.hasher.close sha256Constants context.length

/-- `fdn_sha256_init`, `fdn_sha256_update` for each chunk, and `fdn_sha256_finish`. -/
def digest (memory : List UInt8) (sized : memory.length = 64) (chunks : List (List UInt8)) :
    Except Panic (List UInt8) := do
  let context ← chunks.foldlM update (init memory sized)
  return finish context

/-! ### The compiler -/

/-- The class `Sha256`. -/
structure Sha256 where
  hasher : Hasher
  totalBytes : UInt64
  finished : Bool

namespace Sha256

/-- The constructor; the block is filled with zeros. -/
def new : Sha256 :=
  ⟨⟨initialState, List.replicate 64 0, 0, length_replicate, by decide⟩, 0, false⟩

/-- Takes bytes in. -/
def update (self : Sha256) (bytes : List UInt8) : Except Panic Sha256 :=
  if self.finished then .error "cannot update a finished SHA-256 digest"
  else
    let maximumBytes := 18446744073709551615 / 8
    if self.totalBytes.toNat > maximumBytes ∨ bytes.length > maximumBytes - self.totalBytes.toNat then
      .error "SHA-256 input is too large"
    else
      .ok { self with
        hasher := self.hasher.absorb compilerConstants bytes
        totalBytes := self.totalBytes + UInt64.ofNat bytes.length }

/-- The digest; the hash takes no more bytes. -/
def finish (self : Sha256) : Except Panic (List UInt8 × Sha256) :=
  if self.finished then .error "SHA-256 digest was already finished"
  else
    .ok (self.hasher.close compilerConstants (self.totalBytes * 8), { self with finished := true })

/-- A new digest, `update` for each chunk, and `finish`. -/
def digest (chunks : List (List UInt8)) : Except Panic (List UInt8) := do
  let self ← chunks.foldlM update new
  let (digest, _) ← self.finish
  return digest

end Sha256

end FoundationLang.Crypto
