/-
**The parser of the package `std.json`.**

The parser is a recursive descent over the bytes of a string. Its methods are functions here: they
take the offset of the parser and return the offset that they leave. The length of the parser is the
length of its source.

A loop has a bound on its rounds: the offset grows in every round. The depth of a value is given by
the number of levels that are left below the limit.
-/

import FoundationLang.Library.Json
import FoundationLang.Standard.TextBuilder

namespace FoundationLang.Standard.JsonText

open Library Outcome

/-- What is wrong with a text. -/
inductive ErrorKind
  | unexpectedEnd
  | unexpectedToken
  | invalidString
  | invalidEscape
  | invalidNumber
  | duplicateKey
  | depthLimit
  | trailingData
deriving DecidableEq, Repr

/-- An error and where it is. -/
structure Error where
  kind : ErrorKind
  offset : ℕ
deriving DecidableEq, Repr

/-- The values; arrays and objects are lists. -/
abbrev Value : Type :=
  Json Text

/-! ### Bytes and slices -/

/-- A byte of the source; a panic behind its end. -/
def readByte {ε : Type} (source : Text) (offset : ℕ) : Outcome ε ℕ :=
  match source.byteAt offset with
  | .ok value => .ok value
  | .error _ => panic (.message "JSON parser byte invariant failed")

/-- A part of the source; a panic where it cannot be cut. -/
def readSlice {ε : Type} (source : Text) (start stop : ℕ) : Outcome ε Text :=
  match source.slice start stop with
  | .ok value => .ok value
  | .error _ => panic (.message "JSON parser slice invariant failed")

/-- A part of the source is put into the builder. -/
def appendRange (builder : TextBuilder) (source : Text) (start stop : ℕ) :
    Outcome BuilderError (Bool × TextBuilder) :=
  if start = stop then .ok (true, builder)
  else do
    let value ← readSlice source start stop
    builder.write value

/-- The digits in ASCII. -/
def isDigit (value : ℕ) : Bool :=
  value ≥ 48 && value ≤ 57

/-- The bytes that `skipWhitespace` skips. -/
def isWhitespace (byte : ℕ) : Bool :=
  byte == 32 || byte == 9 || byte == 10 || byte == 13

/-- The byte that a one-letter escape stands for, 0 for none. -/
def simpleEscape (value : ℕ) : ℕ :=
  if value = 34 ∨ value = 47 ∨ value = 92 then value
  else if value = 98 then 8
  else if value = 102 then 12
  else if value = 110 then 10
  else if value = 114 then 13
  else if value = 116 then 9
  else 0

/-- The value of a hexadecimal digit, 16 for another byte. -/
def hexDigit (value : ℕ) : ℕ :=
  if value ≥ 48 ∧ value ≤ 57 then value - 48
  else if value ≥ 65 ∧ value ≤ 70 then value - 55
  else if value ≥ 97 ∧ value ≤ 102 then value - 87
  else 16

/-- A loop over the bytes of a kind. -/
def skipWhile (source : Text) (accepts : ℕ → Bool) : ℕ → ℕ → Outcome Error ℕ
  | offset, 0 => .ok offset
  | offset, rounds + 1 =>
    if offset < source.byteLen then do
      let byte ← readByte source offset
      if accepts byte then
        let offset ← checked (offset + 1)
        skipWhile source accepts offset rounds
      else .ok offset
    else .ok offset

/-- The first offset that is not blank. -/
def skipWhitespace (source : Text) (offset : ℕ) : Outcome Error ℕ :=
  skipWhile source isWhitespace offset (source.byteLen - offset)

/-- The loops over digits in `parseNumber`. -/
def skipDigits (source : Text) (offset : ℕ) : Outcome Error ℕ :=
  skipWhile source isDigit offset (source.byteLen - offset)

/-- Is there a byte of this kind? -/
def byteIs (source : Text) (accepts : ℕ → Bool) (offset : ℕ) : Outcome Error Bool :=
  if offset < source.byteLen then do
    let byte ← readByte source offset
    .ok (accepts byte)
  else .ok false

/-- `consume`; the offset behind it, or `none` for `false`. -/
def consume (source expected : Text) (offset : ℕ) : Outcome Error (Option ℕ) := do
  let stop ← checked (offset + expected.byteLen)
  if stop > source.byteLen then .ok none
  else
    let selected ← readSlice source offset stop
    .ok (if selected.equal expected then some stop else none)

/-! ### Strings -/

/-- The loop of `parseHex`. -/
def hexDigits (source : Text) : ℕ → ℕ → ℕ → Outcome Error (ℕ × ℕ)
  | 0, result, offset => .ok (result, offset)
  | count + 1, result, offset =>
    if offset ≥ source.byteLen then err ⟨.unexpectedEnd, offset⟩
    else do
      let digit := hexDigit (← readByte source offset)
      if digit ≥ 16 then err ⟨.invalidEscape, offset⟩
      else
        let result ← checked (result * 16 + digit)
        let offset ← checked (offset + 1)
        hexDigits source count result offset

/-- Four hexadecimal digits. -/
def parseHex (source : Text) (offset : ℕ) : Outcome Error (ℕ × ℕ) :=
  hexDigits source 4 0 offset

/-- Does another `\u` follow? -/
def unicodeFollows (source : Text) (offset : ℕ) : Outcome Error Bool := do
  let stop ← checked (offset + 2)
  if stop > source.byteLen then .ok false
  else
    let first ← readByte source offset
    if first ≠ 92 then .ok false
    else
      let second ← readByte source (← checked (offset + 1))
      .ok (second == 117)

/-- The part of `parseString` behind `\u`. -/
def parseUnicode (source : Text) (offset : ℕ) : Outcome Error (ℕ × ℕ) := do
  let (first, offset) ← parseHex source offset
  if first ≥ 55296 ∧ first ≤ 56319 then
    let follows ← unicodeFollows source offset
    if !follows then err ⟨.invalidEscape, offset⟩
    else
      let offset ← checked (offset + 2)
      let (second, offset) ← parseHex source offset
      if second < 56320 ∨ second > 57343 then err ⟨.invalidEscape, ← checkedSub offset 4⟩
      else .ok (65536 + (first - 55296) * 1024 + (second - 56320), offset)
  else if first ≥ 56320 ∧ first ≤ 57343 then err ⟨.invalidEscape, ← checkedSub offset 4⟩
  else .ok (first, offset)

/-- The part of `parseString` behind a backslash: the code point of an escape sequence. -/
def parseEscape (source : Text) (offset : ℕ) : Outcome Error (ℕ × ℕ) :=
  if offset ≥ source.byteLen then err ⟨.unexpectedEnd, offset⟩
  else do
    let escaped ← readByte source offset
    let offset ← checked (offset + 1)
    let simple := simpleEscape escaped
    if simple ≠ 0 then .ok (simple, offset)
    else if escaped ≠ 117 then err ⟨.invalidEscape, ← checkedSub offset 1⟩
    else parseUnicode source offset

/-- The loop of `parseString`. -/
def stringLoop (source : Text) : ℕ → TextBuilder → ℕ → ℕ → Outcome Error (Text × ℕ)
  | 0, _, _, offset => err ⟨.unexpectedEnd, offset⟩
  | rounds + 1, builder, segment, offset =>
    if offset < source.byteLen then do
      let byte ← readByte source offset
      if byte = 34 then
        let (_, builder) ← (appendRange builder source segment offset).mapErr
          fun _ => ⟨.invalidString, offset⟩
        let offset ← checked (offset + 1)
        let value ← builder.finish.mapErr fun _ => ⟨.invalidString, offset⟩
        .ok (value, offset)
      else if byte < 32 then err ⟨.invalidString, offset⟩
      else if byte ≠ 92 then
        let offset ← checked (offset + 1)
        stringLoop source rounds builder segment offset
      else
        let (_, builder) ← (appendRange builder source segment offset).mapErr
          fun _ => ⟨.invalidString, offset⟩
        let offset ← checked (offset + 1)
        let (codePoint, offset) ← parseEscape source offset
        let (_, builder) ← (builder.writeCodePoint codePoint).mapErr
          fun _ => ⟨.invalidEscape, offset⟩
        stringLoop source rounds builder offset offset
    else err ⟨.unexpectedEnd, offset⟩

/-- A string behind its opening quote. -/
def parseString (source : Text) (offset : ℕ) : Outcome Error (Text × ℕ) := do
  let offset ← checked (offset + 1)
  stringLoop source (source.byteLen - offset) newTextBuilder offset offset

/-! ### Numbers -/

/-- An optional minus. -/
def numberSign (source : Text) (offset : ℕ) : Outcome Error ℕ := do
  let byte ← readByte source offset
  if byte = 45 then
    let offset ← checked (offset + 1)
    if offset ≥ source.byteLen then err ⟨.invalidNumber, offset⟩
    else .ok offset
  else .ok offset

/-- The integer part of a number. -/
def numberWhole (source : Text) (offset : ℕ) : Outcome Error ℕ := do
  let first ← readByte source offset
  if first = 48 then
    let offset ← checked (offset + 1)
    let digit ← byteIs source isDigit offset
    if digit then err ⟨.invalidNumber, offset⟩
    else .ok offset
  else if first ≥ 49 ∧ first ≤ 57 then
    let offset ← checked (offset + 1)
    skipDigits source offset
  else err ⟨.invalidNumber, offset⟩

/-- One digit or more. -/
def numberDigits (source : Text) (offset : ℕ) : Outcome Error ℕ := do
  let digit ← byteIs source isDigit offset
  if !digit then err ⟨.invalidNumber, offset⟩
  else skipDigits source offset

/-- An optional fraction. -/
def numberFraction (source : Text) (offset : ℕ) : Outcome Error ℕ := do
  let point ← byteIs source (· == 46) offset
  if point then
    let offset ← checked (offset + 1)
    numberDigits source offset
  else .ok offset

/-- An optional exponent. -/
def numberExponent (source : Text) (offset : ℕ) : Outcome Error ℕ := do
  let letter ← byteIs source (fun byte => byte == 101 || byte == 69) offset
  if letter then
    let offset ← checked (offset + 1)
    let sign ← byteIs source (fun byte => byte == 43 || byte == 45) offset
    let offset ← checked (if sign then offset + 1 else offset)
    numberDigits source offset
  else .ok offset

/-- A number, which keeps its text. -/
def parseNumber (source : Text) (start : ℕ) : Outcome Error (Value × ℕ) := do
  let offset ← numberSign source start
  let offset ← numberWhole source offset
  let offset ← numberFraction source offset
  let offset ← numberExponent source offset
  let spelling ← readSlice source start offset
  .ok (.number spelling, offset)

/-! ### Arrays and objects -/

/-- What `parseArray` and `parseObject` do behind a part: is this the end? -/
def delimiter (source : Text) (close offset : ℕ) : Outcome Error (Bool × ℕ) := do
  let offset ← skipWhitespace source offset
  if offset ≥ source.byteLen then err ⟨.unexpectedEnd, offset⟩
  else
    let delimiter ← readByte source offset
    let offset ← checked (offset + 1)
    if delimiter = close then .ok (true, offset)
    else if delimiter ≠ 44 then err ⟨.unexpectedToken, ← checkedSub offset 1⟩
    else
      let offset ← skipWhitespace source offset
      .ok (false, offset)

/-- The loops of `parseArray` and `parseObject`. `parsePart` also returns what it leaves of the parts
before, the last of which comes first until they are reversed. -/
def partLoop {α : Type} (parsePart : List α → ℕ → Outcome Error ((α × List α) × ℕ))
    (source : Text) (close : ℕ) : ℕ → List α → ℕ → Outcome Error (List α × ℕ)
  | 0, _, offset => err ⟨.unexpectedEnd, offset⟩
  | rounds + 1, result, offset => do
    let ((part, result), offset) ← parsePart result offset
    let (done, offset) ← delimiter source close offset
    if done then .ok ((part :: result).reverse, offset)
    else partLoop parsePart source close rounds (part :: result) offset

/-- What `parseArray` and `parseObject` do around their loops. -/
def parseParts {α : Type} (parsePart : List α → ℕ → Outcome Error ((α × List α) × ℕ))
    (source : Text) (close offset : ℕ) : Outcome Error (List α × ℕ) := do
  let offset ← checked (offset + 1)
  let offset ← skipWhitespace source offset
  let empty ← byteIs source (· == close) offset
  if empty then
    let offset ← checked (offset + 1)
    .ok ([], offset)
  else partLoop parsePart source close (source.byteLen + 1) [] offset

/-- An element of an array. -/
def parseItem (parseValue : ℕ → Outcome Error (Value × ℕ)) (result : List Value) (offset : ℕ) :
    Outcome Error ((Value × List Value) × ℕ) := do
  let (value, offset) ← parseValue offset
  .ok ((value, result), offset)

/-- An array behind its bracket. -/
def parseArray (parseValue : ℕ → Outcome Error (Value × ℕ)) (source : Text) (offset : ℕ) :
    Outcome Error (List Value × ℕ) :=
  parseParts (parseItem parseValue) source 93 offset

/-- `fieldSearch`: the fields that were looked at come out the other way round. -/
def fieldSearch (expected : Text) :
    List (Text × Value) → List (Text × Value) → Bool → Bool × List (Text × Value)
  | [], result, found => (found, result)
  | field :: current, result, found =>
    fieldSearch expected current (field :: result) (if field.1.equal expected then true else found)

/-- Some field has the key; the search turns the fields around. -/
def hasKey (fields : List (Text × Value)) (expected : Text) : Bool × List (Text × Value) :=
  fieldSearch expected fields [] false

/-- The key of a member, behind which the other fields are the other way round. -/
def parseKey (source : Text) (fields : List (Text × Value)) (offset : ℕ) :
    Outcome Error ((Text × List (Text × Value)) × ℕ) :=
  if offset ≥ source.byteLen then err ⟨.unexpectedEnd, offset⟩
  else do
    let byte ← readByte source offset
    if byte ≠ 34 then err ⟨.unexpectedToken, offset⟩
    else
      let (key, offset) ← parseString source offset
      let (found, fields) := hasKey fields key
      if found then err ⟨.duplicateKey, offset⟩
      else .ok ((key, fields), offset)

/-- The colon between a key and its value. -/
def parseColon (source : Text) (offset : ℕ) : Outcome Error ℕ := do
  let offset ← skipWhitespace source offset
  let colon ← byteIs source (· == 58) offset
  if !colon then err ⟨.unexpectedToken, offset⟩
  else
    let offset ← checked (offset + 1)
    skipWhitespace source offset

/-- A member of an object. -/
def parseField (parseValue : ℕ → Outcome Error (Value × ℕ)) (source : Text)
    (result : List (Text × Value)) (offset : ℕ) :
    Outcome Error (((Text × Value) × List (Text × Value)) × ℕ) := do
  let ((key, result), offset) ← parseKey source result offset
  let offset ← parseColon source offset
  let (value, offset) ← parseValue offset
  .ok (((key, value), result), offset)

/-- An object behind its brace. -/
def parseObject (parseValue : ℕ → Outcome Error (Value × ℕ)) (source : Text) (offset : ℕ) :
    Outcome Error (List (Text × Value) × ℕ) :=
  parseParts (parseField parseValue source) source 125 offset

/-! ### Values -/

/-- `null`. -/
def nullValue : Text :=
  .literal [110, 117, 108, 108]

/-- `true`. -/
def trueValue : Text :=
  .literal [116, 114, 117, 101]

/-- `false`. -/
def falseValue : Text :=
  .literal [102, 97, 108, 115, 101]

/-- A word, looked for if its first byte is there. -/
def tryLiteral (source expected : Text) (first : Bool) (offset : ℕ) :
    Outcome Error (Option ℕ) :=
  if first then consume source expected offset else .ok none

/-- The end of `parseValue`: literals and numbers. -/
def parseToken (source : Text) (byte offset : ℕ) : Outcome Error (Value × ℕ) := do
  match ← tryLiteral source nullValue (byte == 110) offset with
  | some offset => .ok (.null, offset)
  | none =>
    match ← tryLiteral source trueValue (byte == 116) offset with
    | some offset => .ok (.bool true, offset)
    | none =>
      match ← tryLiteral source falseValue (byte == 102) offset with
      | some offset => .ok (.bool false, offset)
      | none =>
        if byte = 45 ∨ isDigit byte then parseNumber source offset
        else err ⟨.unexpectedToken, offset⟩

/-- `parseValue`. The depth is 129 less the number of levels, so it is above 128 when there are no
levels left. -/
def parseValue (source : Text) : ℕ → ℕ → Outcome Error (Value × ℕ)
  | 0, offset => err ⟨.depthLimit, offset⟩
  | levels + 1, offset => do
    let offset ← skipWhitespace source offset
    if offset ≥ source.byteLen then err ⟨.unexpectedEnd, offset⟩
    else
      let byte ← readByte source offset
      if byte = 34 then
        let (value, offset) ← parseString source offset
        .ok (.text value, offset)
      else if byte = 91 then
        let (value, offset) ← parseArray (parseValue source levels) source offset
        .ok (.array value, offset)
      else if byte = 123 then
        let (value, offset) ← parseObject (parseValue source levels) source offset
        .ok (.object value, offset)
      else parseToken source byte offset

/-- `Parse`. -/
def parse (source : Text) : Outcome Error Value := do
  let (value, offset) ← parseValue source 129 0
  let offset ← skipWhitespace source offset
  if offset ≠ source.byteLen then err ⟨.trailingData, offset⟩
  else .ok value

end FoundationLang.Standard.JsonText
