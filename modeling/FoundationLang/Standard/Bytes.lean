/-
**The package `std.bytes`.**

Bytes and builders are handles of values in memory; a released value has the handle 0. A builder
takes bytes up to its limit.
-/

import FoundationLang.Standard.Text

namespace FoundationLang.Standard

open Library Outcome

/-- `bytes.Error`. -/
inductive BytesError
  | closed
  | outOfBounds
  | invalidUTF8
  | invalidEncoding
  | tooLarge
deriving DecidableEq, Repr

/-- The bytes behind a handle. No object in memory has `2 ^ 63` bytes. -/
@[ext]
structure Storage where
  data : List UInt8
  short : data.length < 2 ^ 63

instance : DecidableEq Storage := fun _ _ =>
  decidable_of_iff _ Storage.ext_iff.symm

/-- `Bytes`; the handle of a released value is 0. -/
structure Bytes where
  handle : Option Storage
deriving DecidableEq

/-- `fdn_bytes_builder`; how much of its capacity is in use does not show. -/
@[ext]
structure BuilderStorage where
  data : List UInt8
  limit : UInt64
  short : data.length < 2 ^ 63

instance : DecidableEq BuilderStorage := fun _ _ =>
  decidable_of_iff _ BuilderStorage.ext_iff.symm

/-- `Builder`; the handle of a released builder is 0. -/
structure Builder where
  handle : Option BuilderStorage
deriving DecidableEq

/-- The bytes of a string. -/
def fromText (value : Text) : Bytes :=
  ⟨some ⟨value.bytes, value.short⟩⟩

namespace Bytes

/-- The number of bytes. -/
def len (self : Bytes) : Outcome BytesError ℕ :=
  match self.handle with
  | none => err .closed
  | some storage => .ok storage.data.length

/-- `At`. -/
def atIndex (self : Bytes) (index : ℕ) : Outcome BytesError ℕ :=
  match self.handle with
  | none => err .closed
  | some storage =>
    match storage.data[index]? with
    | none => err .outOfBounds
    | some byte => .ok byte.toNat

/-- The string, if the bytes are UTF-8. -/
def text (self : Bytes) : Outcome BytesError Text :=
  match self.handle with
  | none => err .closed
  | some storage =>
    if valid : utf8Valid storage.data then .ok ⟨storage.data, valid, storage.short⟩
    else err .invalidUTF8

/-- A range of the bytes. -/
def slice (self : Bytes) (start stop : ℕ) : Outcome BytesError Bytes :=
  match self.handle with
  | none => err .closed
  | some storage =>
    if start > stop ∨ stop > storage.data.length then err .outOfBounds
    else .ok ⟨some {
      data := (storage.data.take stop).drop start
      short := by
        have := storage.short
        simp only [List.length_drop, List.length_take]
        omega }⟩

/-- The same bytes under another handle. -/
def copy (self : Bytes) : Outcome BytesError Bytes :=
  match self.handle with
  | none => err .closed
  | some storage => .ok ⟨some storage⟩

end Bytes

/-- A builder without bytes. -/
def newBuilder (limit : UInt64) : Builder :=
  ⟨some ⟨[], limit, Text.nil_short⟩⟩

namespace Builder

/-- `Len`. -/
def length (self : Builder) : Outcome BytesError ℕ :=
  match self.handle with
  | none => err .closed
  | some storage => .ok storage.data.length

/-- `fdn_bytes_builder_reserve`, and the bytes that are put into the room. Memory for more than an
object can hold is not found. -/
def append (more : List UInt8) : Method Builder BytesError Unit := do
  match (← get).handle with
  | none => throw (.err .closed)
  | some storage =>
    if storage.data.length + more.length > storage.limit.toNat then throw (.err .tooLarge)
    else if room : (storage.data ++ more).length < 2 ^ 63 then
      set (⟨some ⟨storage.data ++ more, storage.limit, room⟩⟩ : Builder)
    else throw (.panic (.message "allocation failed"))

/-- Writes one byte. -/
def writeByte (value : ℕ) : Method Builder BytesError Unit := do
  if (← get).handle.isNone then throw (.err .closed)
  else if value > 255 then throw (.err .outOfBounds)
  else append [UInt8.ofNat value]

/-- Writes the bytes of a value. -/
def write (value : Bytes) : Method Builder BytesError Unit := do
  match value.handle with
  | none => throw (.err .closed)
  | some storage => append storage.data

/-- The bytes; the builder is closed. -/
def finish : Method Builder BytesError Bytes := do
  match (← get).handle with
  | none => throw (.err .closed)
  | some storage =>
    set (⟨none⟩ : Builder)
    return ⟨some ⟨storage.data, storage.short⟩⟩

end Builder

end FoundationLang.Standard
