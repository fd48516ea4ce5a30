/-
**The reader of `std.cpio`.**

An archive in the newc format is a sequence of entries: a header of 110 characters with
hexadecimal fields, a name with a zero byte behind it, and the contents, each filled up to a
multiple of four bytes. An entry with the name `TRAILER!!!` ends the archive.
-/

import FoundationLang.Standard.Bytes

namespace FoundationLang.Standard.Cpio

open Library Outcome

/-- `Error`, without what only the functions on the file system return. -/
inductive Error
  | closed
  | endOfArchive
  | invalidLimit
  | invalidPermissions
  | invalidMagic
  | invalidHex
  | invalidName
  | invalidNameTerminator
  | invalidUTF8
  | nameTooLarge
  | fileTooLarge
  | totalTooLarge
  | tooManyEntries
  | archiveTooLarge
  | missingTrailer
  | unexpectedEnd
deriving DecidableEq, Repr

/-- What a reader does not go beyond. -/
structure ReaderLimits where
  maxNameSize : UInt64
  maxFileSize : UInt64
  maxTotalSize : UInt64
  maxEntries : UInt64
deriving DecidableEq

/-- An entry as the reader returns it. -/
structure Entry where
  name : Text
  mode : ℕ
  uid : ℕ
  gid : ℕ
  nlink : ℕ
  mtime : ℕ
  fileSize : ℕ
  data : Bytes
deriving DecidableEq

/-- An archive and where the reader is in it. -/
structure Reader where
  archive : Bytes
  cursor : ℕ
  totalSize : ℕ
  entries : ℕ
  limits : ReaderLimits
  done : Bool
deriving DecidableEq

/-! ### Numbers and padding -/

/-- How many bytes fill up to a multiple of four. -/
def padding4 (value : ℕ) : ℕ :=
  if value % 4 = 0 then 0 else 4 - value % 4

/-- The next multiple of four. -/
def aligned4 (value : ℕ) : Outcome Error ℕ :=
  checked (value + padding4 value)

/-- A piece of the archive is inside. -/
def fits (length start size : ℕ) : Bool :=
  start ≤ length && size ≤ length - start

/-- The value of a hexadecimal digit. -/
def hexDigit (value : ℕ) : Outcome Error ℕ :=
  if value ≥ 48 ∧ value ≤ 57 then .ok (value - 48)
  else if value ≥ 65 ∧ value ≤ 70 then .ok (value - 55)
  else if value ≥ 97 ∧ value ≤ 102 then .ok (value - 87)
  else err .invalidHex

/-- The loop of `readHex8`, with the number of digits that are left. -/
def readHexDigits (value : Bytes) (start offset result : ℕ) : ℕ → Outcome Error ℕ
  | 0 => .ok result
  | digits + 1 => do
    let index ← checked (start + offset)
    let encoded ← (value.atIndex index).mapErr fun _ => .unexpectedEnd
    let digit ← hexDigit encoded
    let result ← checked (result * 16 + digit)
    readHexDigits value start (offset + 1) result digits

/-- A field of eight hexadecimal digits. -/
def readHex8 (value : Bytes) (start : ℕ) : Outcome Error ℕ := do
  let result ← readHexDigits value start 0 0 8
  if result < 2 ^ 32 then .ok result
  else panic (.message "cpio hex parser width invariant failed")

/-- The archive has this byte here. -/
def expectedByte (value : Bytes) (index expected : ℕ) : Bool :=
  match value.atIndex index with
  | .ok actual => actual == expected
  | .error _ => false

/-- The conditions of `matchesMagic` from one of them on. -/
def matchesBytes (value : Bytes) (start offset : ℕ) : List ℕ → Outcome Error Bool
  | [] => .ok true
  | expected :: rest => do
    let index ← checked (start + offset)
    if expectedByte value index expected then matchesBytes value start (offset + 1) rest
    else .ok false

/-- `matchesMagic`: the characters `070701`. -/
def matchesMagic (value : Bytes) (start : ℕ) : Outcome Error Bool :=
  matchesBytes value start 0 [48, 55, 48, 55, 48, 49]

/-! ### Next -/

/-- The loop over the name, with the number of bytes that are left in front of the last one. -/
def scanName (archive : Bytes) (nameOffset : ℕ) : ℕ → Outcome Error Unit
  | 0 => .ok ()
  | remaining + 1 => do
    let value ← (archive.atIndex nameOffset).mapErr fun _ => .unexpectedEnd
    if value = 0 then err .invalidNameTerminator
    else scanName archive (nameOffset + 1) remaining

/-- The name behind a header, of `encodedNameSize` bytes with its terminator. -/
def readName (archive : Bytes) (nameStart nameEnd : ℕ) : Outcome Error Text := do
  let last ← checkedSub nameEnd 1
  let terminator ← (archive.atIndex last).mapErr fun _ => .unexpectedEnd
  if terminator ≠ 0 then err .invalidNameTerminator
  else
    scanName archive nameStart (nameEnd - 1 - nameStart)
    let nameBytes ← (archive.slice nameStart last).mapErr fun _ => .unexpectedEnd
    let name ← nameBytes.text.mapErr fun _ => .invalidUTF8
    if name.isEmpty then err .invalidName else .ok name

/-- What is at the cursor: the trailer with the position behind it, or an entry with the position
behind it and the size that is added to the total. -/
inductive Found
  | trailer (cursor : ℕ)
  | entry (cursor size : ℕ) (entry : Entry)
deriving DecidableEq

/-- `TRAILER!!!`. -/
def trailerName : Text where
  bytes := [84, 82, 65, 73, 76, 69, 82, 33, 33, 33]
  valid := by decide
  short := by decide

/-- The fields of a header that `Next` reads. -/
structure Header where
  mode : ℕ
  uid : ℕ
  gid : ℕ
  nlink : ℕ
  mtime : ℕ
  fileSize : ℕ
  nameSize : ℕ
deriving DecidableEq, Repr

/-- The fields that the reader uses. -/
def readHeader (archive : Bytes) (cursor : ℕ) : Outcome Error Header := do
  let mode ← readHex8 archive (← checked (cursor + 14))
  let uid ← readHex8 archive (← checked (cursor + 22))
  let gid ← readHex8 archive (← checked (cursor + 30))
  let nlink ← readHex8 archive (← checked (cursor + 38))
  let mtime ← readHex8 archive (← checked (cursor + 46))
  let fileSize ← readHex8 archive (← checked (cursor + 54))
  let nameSize ← readHex8 archive (← checked (cursor + 94))
  .ok { mode, uid, gid, nlink, mtime, fileSize, nameSize }

/-- The contents behind a name, and the entry as a whole. -/
def Reader.findData (self : Reader) (archiveLength dataStart : ℕ) (header : Header)
    (name : Text) : Outcome Error Found := do
  if self.entries ≥ self.limits.maxEntries.toNat then err .tooManyEntries
  else if !fits archiveLength dataStart header.fileSize then err .unexpectedEnd
  else
    let dataEnd ← checked (dataStart + header.fileSize)
    let next ← aligned4 dataEnd
    if next > archiveLength then err .unexpectedEnd
    else
      let data ← (self.archive.slice dataStart dataEnd).mapErr fun _ => .unexpectedEnd
      .ok (.entry next header.fileSize {
        name := name
        mode := header.mode
        uid := header.uid
        gid := header.gid
        nlink := header.nlink
        mtime := header.mtime
        fileSize := header.fileSize
        data := data })

/-- The name behind a header, and what the name says is behind it. -/
def Reader.findName (self : Reader) (archiveLength : ℕ) (header : Header) :
    Outcome Error Found := do
  let nameStart ← checked (self.cursor + 110)
  if !fits archiveLength nameStart header.nameSize then err .unexpectedEnd
  else
    let nameEnd ← checked (nameStart + header.nameSize)
    let name ← readName self.archive nameStart nameEnd
    let dataStart ← aligned4 nameEnd
    if dataStart > archiveLength then err .unexpectedEnd
    else if name.equal trailerName then .ok (.trailer dataStart)
    else self.findData archiveLength dataStart header name

/-- What `Next` does up to its assignments. -/
def Reader.find (self : Reader) : Outcome Error Found := do
  if self.done then err .endOfArchive
  else
    let archiveLength ← self.archive.len.mapErr fun _ => .closed
    if self.cursor = archiveLength then err .missingTrailer
    else if !fits archiveLength self.cursor 110 then err .unexpectedEnd
    else
      let magic ← matchesMagic self.archive self.cursor
      if !magic then err .invalidMagic
      else
        let header ← readHeader self.archive self.cursor
        if header.nameSize = 0 then err .invalidNameTerminator
        else if header.nameSize > self.limits.maxNameSize.toNat then err .nameTooLarge
        else if header.fileSize > self.limits.maxFileSize.toNat then err .fileTooLarge
        else if self.totalSize > self.limits.maxTotalSize.toNat ∨
            header.fileSize > self.limits.maxTotalSize.toNat - self.totalSize then
          err .totalTooLarge
        else self.findName archiveLength header

/-- `Next`. -/
def Reader.next : Method Reader Error Entry := fun self =>
  match self.find with
  | .error stop => .error stop self
  | .ok (.trailer dataStart) =>
    .error (.err .endOfArchive) { self with cursor := dataStart, done := true }
  | .ok (.entry next size entry) =>
    match (checked (self.totalSize + size) : Outcome Error ℕ),
        (checked (self.entries + 1) : Outcome Error ℕ) with
    | .ok totalSize, .ok entries => .ok entry { self with cursor := next, totalSize, entries }
    | _, _ => .error (.panic .overflow) { self with cursor := next }

/-! ### Opening -/

/-- No limit is zero. -/
def validReaderLimits (limits : ReaderLimits) : Bool :=
  limits.maxNameSize > 0 && limits.maxFileSize > 0 && limits.maxTotalSize > 0 &&
    limits.maxEntries > 0

/-- A reader at the start, under valid limits. -/
def newReaderWithLimits (archive : Bytes) (limits : ReaderLimits) : Outcome Error Reader :=
  if !validReaderLimits limits then err .invalidLimit
  else .ok { archive, cursor := 0, totalSize := 0, entries := 0, limits, done := false }

end FoundationLang.Standard.Cpio
