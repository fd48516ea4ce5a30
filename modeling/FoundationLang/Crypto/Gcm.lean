/-
**AES-256-GCM of the runtime** (`crypto.c`).
-/

import FoundationLang.Crypto.Aes

namespace FoundationLang.Crypto

/-! ### The hash -/

/-- `fdn_gcm_shift_right`, with the bit that is carried into the first byte. -/
def gcmShiftRight : UInt8 → List UInt8 → List UInt8
  | _, [] => []
  | carry, byte :: rest => (byte >>> 1 ||| carry <<< 7) :: gcmShiftRight (byte &&& 1) rest

/-- What a round of `fdn_gcm_multiply` does to the factor. -/
def gcmFactor (factor : List UInt8) : List UInt8 :=
  let reduced := factor.getD 15 0 &&& 1
  let factor := gcmShiftRight 0 factor
  if reduced ≠ 0 then factor.set 0 (factor.getD 0 0 ^^^ 0xe1) else factor

/-- A round of `fdn_gcm_multiply`, on the product and the factor. -/
def gcmMultiplyStep (value : List UInt8) (state : List UInt8 × List UInt8) (bit : ℕ) :
    List UInt8 × List UInt8 :=
  (if value.getD (bit / 8) 0 &&& (0x80 >>> UInt8.ofNat (bit % 8)) ≠ 0 then
      List.zipWith (· ^^^ ·) state.1 state.2
    else state.1,
  gcmFactor state.2)

/-- **`fdn_gcm_multiply`.** -/
def gcmMultiply (value hash : List UInt8) : List UInt8 :=
  ((List.range 128).foldl (gcmMultiplyStep value) (List.replicate 16 0, hash)).1

/-- `fdn_gcm_block`. -/
def gcmBlock (state block hash : List UInt8) : List UInt8 :=
  gcmMultiply (List.zipWith (· ^^^ ·) state block) hash

/-- **`fdn_gcm_data`.** -/
def gcmData (state data hash : List UInt8) : List UInt8 :=
  if 16 ≤ data.length then gcmData (gcmBlock state (data.take 16) hash) (data.drop 16) hash
  else if data.length ≠ 0 then
    gcmBlock state (data ++ List.replicate (16 - data.length) 0) hash
  else state
termination_by data.length
decreasing_by
  rw [List.length_drop]
  omega

/-- `fdn_store_u64_be`. -/
def storeU64Be (value : UInt64) : List UInt8 :=
  (List.range 8).map fun place => (value >>> UInt64.ofNat ((7 - place) * 8)).toUInt8

/-- **`fdn_gcm_tag`.** -/
def gcmTag (associated ciphertext hash mask : List UInt8) : List UInt8 :=
  let state := gcmData (List.replicate 16 0) associated hash
  let state := gcmData state ciphertext hash
  let lengths := storeU64Be (UInt64.ofNat associated.length * 8) ++
    storeU64Be (UInt64.ofNat ciphertext.length * 8)
  let state := gcmBlock state lengths hash
  List.zipWith (· ^^^ ·) state mask

/-! ### Counter mode -/

/-- The loop of `fdn_gcm_increment`, with the number of bytes that are left. -/
def gcmIncrementFrom : ℕ → List UInt8 → List UInt8
  | 0, counter => counter
  | left + 1, counter =>
    let index := 12 + left
    let counter := counter.set index (counter.getD index 0 + 1)
    if counter.getD index 0 ≠ 0 then counter else gcmIncrementFrom left counter

/-- `fdn_gcm_increment`. -/
def gcmIncrement (counter : List UInt8) : List UInt8 :=
  gcmIncrementFrom 4 counter

/-- **`fdn_gcm_crypt`**: the output, and the counter behind it. -/
def gcmCrypt (input counter roundKeys : List UInt8) : List UInt8 × List UInt8 :=
  if input.length ≠ 0 then
    let count := if input.length < 16 then input.length else 16
    let counter := gcmIncrement counter
    let stream := aesEncryptBlock counter roundKeys
    let rest := gcmCrypt (input.drop count) counter roundKeys
    (List.zipWith (· ^^^ ·) (input.take count) stream ++ rest.1, rest.2)
  else ([], counter)
termination_by input.length
decreasing_by
  rw [List.length_drop]
  split <;> omega

/-! ### The entry points -/

/-- `SIZE_MAX` and `UINT64_MAX`. -/
def sizeMax : ℕ := 2 ^ 64 - 1

/-- The counter block that the mask is the cipher of. -/
def firstCounter (nonce : List UInt8) : List UInt8 :=
  (nonce ++ List.replicate 4 0).set 15 1

/-- **`foundation_runtime_aes256_gcm_encrypt`.** A handle without a value, and a null pointer, are `none`;
so is `random` if there are no random bytes. -/
def aes256GcmEncrypt (result : Bool) (key value associated : Option (List UInt8))
    (random : Option (Vector UInt8 12)) : ℕ × Option (List UInt8) :=
  if result = false then (1, none)
  else match key, value, associated with
  | some key, some value, some associated =>
    if key.length ≠ 32 then (2, none)
    else if value.length > sizeMax - 28 ∨ value.length > sizeMax / 8 ∨
        associated.length > sizeMax / 8 then (3, none)
    else match random with
    | none => (5, none)
    | some nonce =>
      let roundKeys := aesExpand256 key
      let hash := aesEncryptBlock (List.replicate 16 0) roundKeys
      let counter := firstCounter nonce.toList
      let mask := aesEncryptBlock counter roundKeys
      let ciphertext := (gcmCrypt value counter roundKeys).1
      let tag := gcmTag associated ciphertext hash mask
      (0, some (nonce.toList ++ ciphertext ++ tag))
  | _, _, _ => (1, none)

/-- The loop that compares the tag. -/
def tagDifference (tag given : List UInt8) : UInt8 :=
  (List.range 16).foldl
    (fun difference index => difference ||| (tag.getD index 0 ^^^ given.getD index 0)) 0

/-- **`foundation_runtime_aes256_gcm_decrypt`.** -/
def aes256GcmDecrypt (result : Bool) (key value associated : Option (List UInt8)) :
    ℕ × Option (List UInt8) :=
  if result = false then (1, none)
  else match key, value, associated with
  | some key, some value, some associated =>
    if key.length ≠ 32 then (2, none)
    else if value.length < 28 ∨ value.length - 28 > sizeMax / 8 ∨ associated.length > sizeMax / 8 then
      (3, none)
    else
      let plaintextLength := value.length - 28
      let ciphertext := (value.drop 12).take plaintextLength
      let roundKeys := aesExpand256 key
      let hash := aesEncryptBlock (List.replicate 16 0) roundKeys
      let counter := firstCounter (value.take 12)
      let mask := aesEncryptBlock counter roundKeys
      let tag := gcmTag associated ciphertext hash mask
      if tagDifference tag (value.drop (12 + plaintextLength)) ≠ 0 then (4, none)
      else (0, some (gcmCrypt ciphertext counter roundKeys).1)
  | _, _, _ => (1, none)

end FoundationLang.Crypto
