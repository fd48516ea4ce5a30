/-
**The writer of `std.cpio`.**
-/

import FoundationLang.Standard.CpioReader

namespace FoundationLang.Standard.Cpio

open Library Outcome

/-- What a writer does not go beyond. -/
structure WriterLimits where
  maxNameSize : UInt64
  maxFileSize : UInt64
  maxTotalSize : UInt64
  maxEntries : UInt64
  maxArchiveSize : UInt64
deriving DecidableEq

/-- The fields that all entries share, and the limits. -/
structure WriterOptions where
  uid : UInt32
  gid : UInt32
  mtime : UInt32
  limits : WriterLimits
deriving DecidableEq

/-- The archive so far, and what was counted. -/
structure Writer where
  builder : Builder
  inode : ℕ
  uid : UInt32
  gid : UInt32
  mtime : UInt32
  entries : ℕ
  totalSize : ℕ
  limits : WriterLimits
deriving DecidableEq

/-! ### Names -/

/-- The first loop of `validName`, with the number of bytes that are left; `none` is
`return false`. Positions and lengths are at most the length of the name, so that they do not
overflow. -/
def scanSegments (value : Text) (offset segmentLength : ℕ) : ℕ → Option ℕ
  | 0 => some segmentLength
  | remaining + 1 =>
    match value.byteAt offset with
    | .error _ => none
    | .ok valueByte =>
      if valueByte = 0 ∨ valueByte = 92 then none
      else if valueByte = 47 then
        if segmentLength = 0 then none else scanSegments value (offset + 1) 0 remaining
      else scanSegments value (offset + 1) (segmentLength + 1) remaining

/-- The second loop of `validName`, with the number of rounds that are left. -/
def allowedSegments (value : Text) (start offset : ℕ) : ℕ → Bool
  | 0 => true
  | remaining + 1 =>
    let atEnd := offset == value.byteLen
    let separator : Outcome RangeError Bool :=
      if atEnd then .ok false else (· == 47) <$> value.byteAt offset
    match separator with
    | .error _ => false
    | .ok separator =>
      if atEnd || separator then
        match value.slice start offset with
        | .error _ => false
        | .ok segment =>
          if segment.equal (.literal [46]) || segment.equal (.literal [46, 46]) then false
          else allowedSegments value (offset + 1) (offset + 1) remaining
      else allowedSegments value start (offset + 1) remaining

/-- The names that may be added. -/
def validName (value : Text) : Bool :=
  if value.byteLen = 0 then false
  else if value.startsWith (.literal [47]) || value.endsWith (.literal [47]) then false
  else if value.startsWith (.literal [46, 47]) || value.equal (.literal [46]) then false
  else if value.startsWith (.literal [46, 46, 47]) || value.equal (.literal [46, 46]) then false
  else
    match scanSegments value 0 0 value.byteLen with
    | none => false
    | some segmentLength =>
      if segmentLength = 0 then false else allowedSegments value 0 0 (value.byteLen + 1)

/-! ### Writing to the builder -/

/-- The error of a full or closed builder. -/
def byteWriteError : BytesError → Error
  | .closed => .closed
  | .tooLarge => .archiveTooLarge
  | .outOfBounds => .archiveTooLarge
  | .invalidUTF8 => .archiveTooLarge
  | .invalidEncoding => .archiveTooLarge

/-- One byte. -/
def writeByte (value : ℕ) : Method Builder Error Unit :=
  (Builder.writeByte value).mapErr byteWriteError

/-- The bytes of a value. -/
def writeBytes (value : Bytes) : Method Builder Error Unit :=
  (Builder.write value).mapErr byteWriteError

/-- The bytes of a string. -/
def writeText (value : Text) : Method Builder Error Unit :=
  writeBytes (fromText value)

/-- The loop of `writePadding`. -/
def writeZeros : ℕ → Method Builder Error Unit
  | 0 => pure ()
  | remaining + 1 => do
    writeByte 0
    writeZeros remaining

/-- Zeros up to a multiple of four. -/
def writePadding (size : ℕ) : Method Builder Error Unit :=
  writeZeros (padding4 size)

/-- The loop of `writeHex8`, with the number of rounds until the divisor is 0. -/
def writeHexDigits (converted divisor : ℕ) : ℕ → Method Builder Error Unit
  | 0 => pure ()
  | digits + 1 => do
    let digit := converted / divisor % 16
    writeByte (if digit < 10 then digit + 48 else digit + 55)
    writeHexDigits converted (divisor / 16) digits

/-- A field of eight hexadecimal digits. -/
def writeHex8 (value : ℕ) : Method Builder Error Unit :=
  writeHexDigits value 268435456 8

/-- The header of an entry. -/
def writeHeader (inode mode uid gid links mtime fileSize nameSize : ℕ) :
    Method Builder Error Unit := do
  writeText (.literal [48, 55, 48, 55, 48, 49])
  writeHex8 inode
  writeHex8 mode
  writeHex8 uid
  writeHex8 gid
  writeHex8 links
  writeHex8 mtime
  writeHex8 fileSize
  writeHex8 0
  writeHex8 0
  writeHex8 0
  writeHex8 0
  writeHex8 nameSize
  writeHex8 0

/-! ### Adding entries -/

/-- `entrySize`; when a part of the sum overflows, the sum does. -/
def entrySize (nameSize dataSize : ℕ) : Outcome Error ℕ :=
  checked (110 + nameSize + padding4 (110 + nameSize) + dataSize + padding4 dataSize)

/-- What `add` writes once an entry has passed the checks. -/
def writeEntry (inode mode uid gid links mtime fileSize nameSize : ℕ) (name : Text)
    (data : Bytes) : Method Builder Error Unit := do
  writeHeader inode mode uid gid links mtime fileSize nameSize
  writeText name
  writeByte 0
  writePadding (110 + nameSize)
  writeBytes data
  writePadding fileSize

/-- The checks of `add`; the result is the number of bytes of the data. -/
def Writer.checkEntry (self : Writer) (name : Text) (data : Bytes) : Outcome Error ℕ := do
  if !validName name then err .invalidName
  else
    let nameLength := name.byteLen
    if nameLength ≥ self.limits.maxNameSize.toNat then err .nameTooLarge
    else
      let nameSize ← checked (nameLength + 1)
      let dataSize ← data.len.mapErr fun _ => .closed
      if dataSize > self.limits.maxFileSize.toNat then err .fileTooLarge
      else if self.totalSize > self.limits.maxTotalSize.toNat ∨
          dataSize > self.limits.maxTotalSize.toNat - self.totalSize then err .totalTooLarge
      else if self.entries ≥ self.limits.maxEntries.toNat then err .tooManyEntries
      else
        let encodedSize ← entrySize nameSize dataSize
        let currentSize ← self.builder.length.mapErr fun _ => .closed
        if currentSize > self.limits.maxArchiveSize.toNat ∨
            encodedSize > self.limits.maxArchiveSize.toNat - currentSize then err .archiveTooLarge
        else if dataSize ≥ 2 ^ 32 then err .fileTooLarge
        else if nameSize ≥ 2 ^ 32 then err .nameTooLarge
        else .ok dataSize

/-- An entry is checked against all limits, and is then written. -/
def Writer.add (name : Text) (mode links : ℕ) (data : Bytes) : Method Writer Error Unit := fun self =>
  match self.checkEntry name data with
  | .error stop => .error stop self
  | .ok dataSize =>
    match writeEntry self.inode mode self.uid.toNat self.gid.toNat links self.mtime.toNat dataSize
        (name.byteLen + 1) name data self.builder with
    | .error stop builder => .error stop { self with builder }
    | .ok () builder =>
      if self.inode + 1 < 2 ^ 32 ∧ self.entries + 1 < 2 ^ 64 ∧ self.totalSize + dataSize < 2 ^ 64 then
        .ok () { self with
          builder := builder
          inode := self.inode + 1
          entries := self.entries + 1
          totalSize := self.totalSize + dataSize }
      else .error (.panic .overflow) { self with builder }

/-- Adds a directory. -/
def Writer.addDir (name : Text) (permissions : UInt32) : Method Writer Error Unit := do
  if permissions > 511 then throw (.err .invalidPermissions)
  else Writer.add name (16384 + permissions.toNat) 2 (fromText .empty)

/-- Adds a file. -/
def Writer.addFile (name : Text) (permissions : UInt32) (data : Bytes) :
    Method Writer Error Unit := do
  if permissions > 511 then throw (.err .invalidPermissions)
  else Writer.add name (32768 + permissions.toNat) 1 data

/-- What `Finish` writes. -/
def writeTrailer (inode mtime nameSize : ℕ) : Method Builder Error Unit := do
  writeHeader inode 0 0 0 1 mtime 0 nameSize
  writeText trailerName
  writeByte 0
  writePadding (110 + nameSize)

/-- `Finish`. The writer is consumed. -/
def Writer.finish (self : Writer) : Outcome Error Bytes := do
  let nameSize := trailerName.byteLen + 1
  let encodedSize ← entrySize nameSize 0
  let currentSize ← self.builder.length.mapErr fun _ => .closed
  if currentSize > self.limits.maxArchiveSize.toNat ∨
      encodedSize > self.limits.maxArchiveSize.toNat - currentSize then err .archiveTooLarge
  else
    let write : Method Builder Error Bytes := do
      writeTrailer self.inode self.mtime.toNat nameSize
      Builder.finish.mapErr byteWriteError
    match write self.builder with
    | .ok archive _ => .ok archive
    | .error stop _ => .error stop

/-! ### Opening -/

/-- No limit is zero. -/
def validWriterLimits (limits : WriterLimits) : Bool :=
  validReaderLimits {
    maxNameSize := limits.maxNameSize
    maxFileSize := limits.maxFileSize
    maxTotalSize := limits.maxTotalSize
    maxEntries := limits.maxEntries } &&
  limits.maxNameSize ≥ 11 && limits.maxEntries ≤ 4294967294 && limits.maxArchiveSize ≥ 124

/-- A writer without entries, under valid limits. -/
def newWriterWithOptions (options : WriterOptions) : Outcome Error Writer :=
  if !validWriterLimits options.limits then err .invalidLimit
  else .ok {
    builder := newBuilder options.limits.maxArchiveSize
    inode := 1
    uid := options.uid
    gid := options.gid
    mtime := options.mtime
    entries := 0
    totalSize := 0
    limits := options.limits }

end FoundationLang.Standard.Cpio
