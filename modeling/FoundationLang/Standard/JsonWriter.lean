/-
**The writer of the package `std.json`.**

A value is written into a builder, and objects are sorted by their keys on the way.

The depth of a value is given by the number of levels that are left below the limit.
-/

import FoundationLang.Standard.JsonParser

namespace FoundationLang.Standard.JsonText

open Library Outcome

/-- Why a value is not written. -/
inductive WriteErrorKind
  | invalidNumber
  | depthLimit
  | builder
deriving DecidableEq, Repr

/-- An error of the writer. -/
structure WriteError where
  kind : WriteErrorKind
deriving DecidableEq, Repr

/-! ### Sorting -/

section Sorting

variable {β : Type}

/-- `fieldChoice`: the field with the smallest key, and the rest. -/
def fieldChoice : Text × β → List (Text × β) → List (Text × β) → (Text × β) × List (Text × β)
  | best, [], remaining => (best, remaining)
  | best, field :: candidates, remaining =>
    if field.1.compare best.1 = .lt then fieldChoice field candidates (best :: remaining)
    else fieldChoice best candidates (field :: remaining)

/-- `fieldSort`, with as many rounds as there are fields. -/
def fieldSort : ℕ → List (Text × β) → List (Text × β) → List (Text × β)
  | 0, _, sorted => sorted
  | _ + 1, [], sorted => sorted
  | rounds + 1, field :: pending, sorted =>
    let (best, remaining) := fieldChoice field pending []
    fieldSort rounds remaining (best :: sorted)

/-- `Object.sort`, which takes the smallest field out of the rest again and again. -/
def sort (fields : List (Text × β)) : List (Text × β) :=
  (fieldSort fields.length fields []).reverse

end Sorting

/-! ### Strings -/

/-- A string as it is. -/
def writeRaw (value : Text) (builder : TextBuilder) : Outcome WriteError TextBuilder := do
  let (written, builder) ← (builder.write value).mapErr fun _ => ⟨.builder⟩
  if !written then err ⟨.builder⟩ else .ok builder

/-- A part of a string as it is. -/
def writeRange (value : Text) (start stop : ℕ) (builder : TextBuilder) :
    Outcome WriteError TextBuilder :=
  if start = stop then .ok builder
  else do
    let part ← readSlice value start stop
    writeRaw part builder

/-- One hexadecimal digit. -/
def writeHexDigit (value : ℕ) (builder : TextBuilder) : Outcome WriteError TextBuilder := do
  let code := if value < 10 then value + 48 else value + 87
  let (written, builder) ← (builder.writeCodePoint code).mapErr fun _ => ⟨.builder⟩
  if !written then err ⟨.builder⟩ else .ok builder

/-- A byte that cannot stand for itself. -/
def writeEscapedByte (value : ℕ) (builder : TextBuilder) : Outcome WriteError TextBuilder :=
  if value = 34 then writeRaw (.literal [92, 34]) builder
  else if value = 92 then writeRaw (.literal [92, 92]) builder
  else if value = 8 then writeRaw (.literal [92, 98]) builder
  else if value = 9 then writeRaw (.literal [92, 116]) builder
  else if value = 10 then writeRaw (.literal [92, 110]) builder
  else if value = 12 then writeRaw (.literal [92, 102]) builder
  else if value = 13 then writeRaw (.literal [92, 114]) builder
  else do
    let builder ← writeRaw (.literal [92, 117, 48, 48]) builder
    let builder ← writeHexDigit (value / 16) builder
    writeHexDigit (value % 16) builder

/-- The loop of `writeString`, with as many rounds as bytes are left. -/
def writeLoop (value : Text) : ℕ → ℕ → ℕ → TextBuilder → Outcome WriteError (ℕ × TextBuilder)
  | 0, segment, _, builder => .ok (segment, builder)
  | rounds + 1, segment, offset, builder =>
    if offset < value.byteLen then do
      let byte ← readByte value offset
      if byte = 34 ∨ byte = 92 ∨ byte < 32 then
        let builder ← writeRange value segment offset builder
        let builder ← writeEscapedByte byte builder
        let segment ← checked (offset + 1)
        let offset ← checked (offset + 1)
        writeLoop value rounds segment offset builder
      else
        let offset ← checked (offset + 1)
        writeLoop value rounds segment offset builder
    else .ok (segment, builder)

/-- A string between quotation marks. -/
def writeString (value : Text) (builder : TextBuilder) : Outcome WriteError TextBuilder := do
  let builder ← writeRaw (.literal [34]) builder
  let (segment, builder) ← writeLoop value value.byteLen 0 0 builder
  let builder ← writeRange value segment value.byteLen builder
  writeRaw (.literal [34]) builder

/-! ### Values -/

/-- A number, if it is one. -/
def writeNumber (value : Text) (builder : TextBuilder) : Outcome WriteError TextBuilder := do
  let parsed ← (parse value).mapErr fun _ => ⟨.invalidNumber⟩
  let valid := match parsed with
    | .number canonical => canonical.equal value
    | _ => false
  if !valid then err ⟨.invalidNumber⟩ else writeRaw value builder

/-- The loops of `writeArray` and `writeObject`; `first` is set in the first round. -/
def writeParts {α : Type} (writePart : α → TextBuilder → Outcome WriteError TextBuilder) :
    Bool → List α → TextBuilder → Outcome WriteError TextBuilder
  | _, [], builder => .ok builder
  | first, part :: parts, builder => do
    let builder ← if first then .ok builder else writeRaw (.literal [44]) builder
    let builder ← writePart part builder
    writeParts writePart false parts builder

/-- The items between brackets. -/
def writeArray (writeValue : Value → TextBuilder → Outcome WriteError TextBuilder)
    (items : List Value) (builder : TextBuilder) : Outcome WriteError TextBuilder := do
  let builder ← writeRaw (.literal [91]) builder
  let builder ← writeParts writeValue true items builder
  writeRaw (.literal [93]) builder

/-- A member of an object. -/
def writeField (writeValue : Value → TextBuilder → Outcome WriteError TextBuilder)
    (field : Text × Value) (builder : TextBuilder) : Outcome WriteError TextBuilder := do
  let builder ← writeString field.1 builder
  let builder ← writeRaw (.literal [58]) builder
  writeValue field.2 builder

/-- The sorted members between braces. -/
def writeObject (writeValue : Value → TextBuilder → Outcome WriteError TextBuilder)
    (fields : List (Text × Value)) (builder : TextBuilder) : Outcome WriteError TextBuilder := do
  let builder ← writeRaw (.literal [123]) builder
  let builder ← writeParts (writeField writeValue) true (sort fields) builder
  writeRaw (.literal [125]) builder

/-- `writeValue`. The depth is 129 less the number of levels, so it is above 128 when there are no
levels left. -/
def writeValue : ℕ → Value → TextBuilder → Outcome WriteError TextBuilder
  | 0, _, _ => err ⟨.depthLimit⟩
  | levels + 1, value, builder =>
    match value with
    | .null => writeRaw nullValue builder
    | .bool state => writeRaw (if state then trueValue else falseValue) builder
    | .number spelling => writeNumber spelling builder
    | .text content => writeString content builder
    | .array items => writeArray (writeValue levels) items builder
    | .object fields => writeObject (writeValue levels) fields builder

/-- `Stringify`. -/
def stringify (value : Value) : Outcome WriteError Text := do
  let builder ← writeValue 129 value newTextBuilder
  builder.finish.mapErr fun _ => ⟨.builder⟩

end FoundationLang.Standard.JsonText
