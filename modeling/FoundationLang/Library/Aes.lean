/-
**AES-256**, as FIPS 197 defines it.

* `xTimes`, `times`, `inverse` — the field of 256 polynomials.
* `subByte`, `shiftRows`, `mixColumns`, `addRoundKey` — what a round does to a state.
-/

import FoundationLang.Library.Blocks

namespace FoundationLang.Library.Aes

/-! ### Bytes -/

/-- A polynomial times `x`, modulo `x ^ 8 + x ^ 4 + x ^ 3 + x + 1`. -/
def xTimes (value : ℕ) : ℕ :=
  (2 * value) ^^^ (value / 128 * 0x11b)

/-- The product of a polynomial with the first coefficients of another. -/
def timesFirst : ℕ → ℕ → ℕ → ℕ
  | 0, _, _ => 0
  | count + 1, left, right => (right % 2 * left) ^^^ timesFirst count (xTimes left) (right / 2)

/-- The product of two polynomials. -/
def times (left right : ℕ) : ℕ :=
  timesFirst 8 left right

/-- The product of the powers `2`, `4`, `8`, … of a polynomial. -/
def squares : ℕ → ℕ → ℕ
  | 0, _ => 1
  | count + 1, value =>
    let square := times value value
    times square (squares count square)

/-- The power `254 = 2 + 4 + … + 128` of a polynomial. -/
def inverse (value : ℕ) : ℕ :=
  squares 7 value

/-- A byte times a constant. -/
def scale (factor : ℕ) (byte : UInt8) : UInt8 :=
  UInt8.ofNat (times factor byte.toNat)

/-- The bits of a byte, each a number of places further up, around the end. -/
def rotate (value count : ℕ) : ℕ :=
  value * 2 ^ count % 256 + value / 2 ^ (8 - count)

/-- `SBOX`. -/
def subByte (byte : UInt8) : UInt8 :=
  let value := inverse byte.toNat
  UInt8.ofNat (value ^^^ rotate value 1 ^^^ rotate value 2 ^^^ rotate value 3 ^^^ rotate value 4 ^^^ 0x63)

/-! ### The key schedule -/

/-- The exclusive or of words. -/
def xorWord (left right : List UInt8) : List UInt8 :=
  List.zipWith (· ^^^ ·) left right

/-- `Rcon`. -/
def roundConstant (index : ℕ) : List UInt8 :=
  [UInt8.ofNat (xTimes^[index - 1] 1), 0, 0, 0]

/-- The word behind the words so far. -/
def nextWord (words : List (List UInt8)) : List UInt8 :=
  let index := words.length
  let previous := words.getD (index - 1) []
  xorWord (words.getD (index - 8) [])
    (if index % 8 = 0 then xorWord ((previous.rotateLeft 1).map subByte) (roundConstant (index / 8))
    else if index % 8 = 4 then previous.map subByte
    else previous)

/-- **The words of the key schedule** of a key of 32 bytes. -/
def keyWords (key : List UInt8) : List (List UInt8) :=
  (fun words => words ++ [nextWord words])^[52] (blocks 4 key)

/-! ### The cipher -/

/-- The byte of a state in a row and a column. -/
def entry (state : List UInt8) (row column : ℕ) : UInt8 :=
  state.getD (row % 4 + 4 * (column % 4)) 0

/-- The state with the given bytes in its rows and columns. -/
def build (byte : ℕ → ℕ → UInt8) : List UInt8 :=
  (List.range 16).map fun place => byte (place % 4) (place / 4)

/-- The substitution of every byte. -/
def subBytes (state : List UInt8) : List UInt8 :=
  build fun row column => subByte (entry state row column)

/-- Each row turned by its number. -/
def shiftRows (state : List UInt8) : List UInt8 :=
  build fun row column => entry state row (column + row)

/-- Each column times the fixed polynomial. -/
def mixColumns (state : List UInt8) : List UInt8 :=
  build fun row column => scale 2 (entry state row column) ^^^
    scale 3 (entry state (row + 1) column) ^^^ entry state (row + 2) column ^^^
    entry state (row + 3) column

/-- The words of a round added to the columns. -/
def addRoundKey (words : List (List UInt8)) (round : ℕ) (state : List UInt8) : List UInt8 :=
  build fun row column =>
    entry state row column ^^^ (words.getD (4 * round + column) []).getD row 0

/-- A round before the last one. -/
def middleRound (words : List (List UInt8)) (state : List UInt8) (round : ℕ) : List UInt8 :=
  addRoundKey words round (mixColumns (shiftRows (subBytes state)))

/-- **The cipher of a block** of 16 bytes, with 14 rounds. -/
def cipher (key block : List UInt8) : List UInt8 :=
  let words := keyWords key
  let state := (List.range' 1 13).foldl (middleRound words) (addRoundKey words 0 block)
  addRoundKey words 14 (shiftRows (subBytes state))

theorem build_length (b : ℕ → ℕ → UInt8) : (build b).length = 16 :=
  rfl

theorem subBytes_length (s : List UInt8) : (subBytes s).length = 16 :=
  build_length _

theorem shiftRows_length (s : List UInt8) : (shiftRows s).length = 16 :=
  build_length _

theorem mixColumns_length (s : List UInt8) : (mixColumns s).length = 16 :=
  build_length _

theorem addRoundKey_length (ws : List (List UInt8)) (round : ℕ) (s : List UInt8) :
    (addRoundKey ws round s).length = 16 :=
  build_length _

theorem middleRound_length (ws : List (List UInt8)) (s : List UInt8) (round : ℕ) :
    (middleRound ws s round).length = 16 := by
  unfold middleRound
  exact addRoundKey_length ..

theorem cipher_length (key block : List UInt8) : (cipher key block).length = 16 := by
  unfold cipher
  exact addRoundKey_length ..

theorem xorWord_length (left right : List UInt8) :
    (xorWord left right).length = min left.length right.length :=
  List.length_zipWith

end FoundationLang.Library.Aes
