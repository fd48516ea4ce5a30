/-
**SHA-256**, as FIPS 180-4 defines it for messages of bytes.

* `initialHash`, `constants` — the first 32 bits of the fractional parts of the square roots of the first
  8 primes, and of the cube roots of the first 64 primes.
* `schedule`, `hashRound`, `compress` — the hash computation for one block of 64 bytes.
* `pad` — the padding: a one bit, zeros, and the length in bits in 64 bits.
-/

import FoundationLang.Library.Blocks

namespace FoundationLang.Library.Sha256

/-- A word of 32 bits. -/
abbrev Word : Type :=
  BitVec 32

/-- Eight words. -/
@[ext]
structure Registers (W : Type) where
  a : W
  b : W
  c : W
  d : W
  e : W
  f : W
  g : W
  h : W
deriving DecidableEq

namespace Registers

variable {V W : Type}

/-- A function on every register. -/
def map (convert : V → W) (registers : Registers V) : Registers W :=
  ⟨convert registers.a, convert registers.b, convert registers.c, convert registers.d,
    convert registers.e, convert registers.f, convert registers.g, convert registers.h⟩

/-- The sums of the words. -/
def add [Add W] (left right : Registers W) : Registers W :=
  ⟨left.a + right.a, left.b + right.b, left.c + right.c, left.d + right.d, left.e + right.e,
    left.f + right.f, left.g + right.g, left.h + right.h⟩

/-- The registers in their order. -/
def toList (registers : Registers W) : List W :=
  [registers.a, registers.b, registers.c, registers.d, registers.e, registers.f, registers.g,
    registers.h]

end Registers

/-! ### Functions and constants -/

/-- The function Ch. -/
def choice (x y z : Word) : Word :=
  (x &&& y) ^^^ (~~~x &&& z)

/-- The function Maj. -/
def majority (x y z : Word) : Word :=
  (x &&& y) ^^^ (x &&& z) ^^^ (y &&& z)

/-- The function Σ0. -/
def bigSigma0 (x : Word) : Word :=
  x.rotateRight 2 ^^^ x.rotateRight 13 ^^^ x.rotateRight 22

/-- The function Σ1. -/
def bigSigma1 (x : Word) : Word :=
  x.rotateRight 6 ^^^ x.rotateRight 11 ^^^ x.rotateRight 25

/-- The function σ0. -/
def smallSigma0 (x : Word) : Word :=
  x.rotateRight 7 ^^^ x.rotateRight 18 ^^^ x >>> 3

/-- The function σ1. -/
def smallSigma1 (x : Word) : Word :=
  x.rotateRight 17 ^^^ x.rotateRight 19 ^^^ x >>> 10

/-- The prime numbers below a bound. -/
def primesBelow (bound : ℕ) : List ℕ :=
  (List.range bound).filter fun number =>
    2 ≤ number && (List.range number).all fun divisor => divisor < 2 || number % divisor != 0

/-- The integral part of a root, bit by bit. -/
def root (degree bits number : ℕ) : ℕ :=
  (List.range bits).reverse.foldl (fun result bit =>
    if (result + 2 ^ bit) ^ degree ≤ number then result + 2 ^ bit else result) 0

/-- The first 32 bits of the fractional part of a root. -/
def fraction (degree number : ℕ) : Word :=
  BitVec.ofNat 32 (root degree 40 (number * 2 ^ (32 * degree)))

/-- The words before the first block. -/
def initialHash : Registers Word :=
  ⟨fraction 2 2, fraction 2 3, fraction 2 5, fraction 2 7, fraction 2 11, fraction 2 13,
    fraction 2 17, fraction 2 19⟩

/-- The words of the rounds. The 64th prime is 311. -/
def constants : List Word :=
  (primesBelow 312).map (fraction 3)

/-! ### Bytes -/

/-- The number that bytes are, the first one first. -/
def bigEndian (bytes : List UInt8) : ℕ :=
  bytes.foldl (fun value byte => 256 * value + byte.toNat) 0

/-- The bytes of a number, the first one first. -/
def toBytes (count value : ℕ) : List UInt8 :=
  (List.range count).map fun index => UInt8.ofNat (value / 256 ^ (count - 1 - index))

/-! ### The hash computation -/

/-- A word of a block. -/
def blockWord (block : List UInt8) (index : ℕ) : Word :=
  BitVec.ofNat 32 (bigEndian ((block.drop (4 * index)).take 4))

/-- **The message schedule.** -/
def schedule (block : List UInt8) (index : ℕ) : Word :=
  if index < 16 then blockWord block index
  else smallSigma1 (schedule block (index - 2)) + schedule block (index - 7) +
    smallSigma0 (schedule block (index - 15)) + schedule block (index - 16)
termination_by index

/-- One round of the compression. -/
def hashRound (registers : Registers Word) (constant word : Word) : Registers Word :=
  let first := registers.h + bigSigma1 registers.e +
    choice registers.e registers.f registers.g + constant + word
  let second := bigSigma0 registers.a + majority registers.a registers.b registers.c
  ⟨first + second, registers.a, registers.b, registers.c, registers.d + first, registers.e,
    registers.f, registers.g⟩

/-- **The words behind a block.** -/
def compress (hash : Registers Word) (block : List UInt8) : Registers Word :=
  hash.add ((constants.zip ((List.range 64).map (schedule block))).foldl
    (fun registers (constant, word) => hashRound registers constant word) hash)

/-- The zeros of the padding: as few as fill the last block. -/
def zeros (length : ℕ) : ℕ :=
  (119 - length % 64) % 64

/-- **The message with its padding.** -/
def pad (message : List UInt8) : List UInt8 :=
  message ++ 0x80 :: (List.replicate (zeros message.length) 0 ++ toBytes 8 (8 * message.length))

/-- **The digest.** -/
def sha256 (message : List UInt8) : List UInt8 :=
  ((blocks 64 (pad message)).foldl compress initialHash).toList.flatMap fun word =>
    toBytes 4 word.toNat

theorem toBytes_length (count v : ℕ) : (toBytes count v).length = count := by
  unfold toBytes
  rw [List.length_map, List.length_range]

end FoundationLang.Library.Sha256
