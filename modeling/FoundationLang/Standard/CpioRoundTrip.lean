/-
**What the writer has added, the reader returns, up to the name of the trailer.**

The reader ends at the first entry with the name `TRAILER!!!`. The writer puts such an entry behind
all others, but it also adds one when a caller asks for a file or a directory of that name.
-/

import FoundationLang.Standard.CpioFormat
import FoundationLang.Standard.CpioNames
import Mathlib.Data.List.TakeWhile

namespace FoundationLang.Standard.Cpio

open Library Outcome List

variable {writer : Writer} {bytes : List UInt8}

/-- The calls that add entries; `writeArchive` — a sequence of them, and `Finish`. -/
inductive Call
  | addDir (name : Text) (permissions : UInt32)
  | addFile (name : Text) (permissions : UInt32) (data : Bytes)

variable {calls : List Call} {after : Writer}

namespace Call

/-- The name of the entry. -/
def name : Call → Text
  | addDir name _ => name
  | addFile name _ _ => name

/-- The kind and the permissions. -/
def mode : Call → ℕ
  | addDir _ permissions => 16384 + permissions.toNat
  | addFile _ permissions _ => 32768 + permissions.toNat

/-- The number of links. -/
def links : Call → ℕ
  | addDir _ _ => 2
  | addFile _ _ _ => 1

/-- The contents of the entry. -/
def data : Call → Bytes
  | addDir _ _ => fromText .empty
  | addFile _ _ data => data

/-- The call as it is made. -/
def run : Call → Method Writer Error Unit
  | addDir name permissions => Writer.addDir name permissions
  | addFile name permissions data => Writer.addFile name permissions data

end Call

/-- The bytes of a value; none once they are released. -/
def contents (value : Bytes) : List UInt8 :=
  match value.handle with
  | none => []
  | some storage => storage.data

theorem length_contents (value : Bytes) : (contents value).length = length value := by
  unfold contents length
  cases value.handle <;> rfl

/-- Calls one after the other; the first error ends them. -/
def addAll : List Call → Method Writer Error Unit
  | [] => pure ()
  | call :: calls => do
    call.run
    addAll calls

/-- A writer is opened, the calls are made, and `Finish` returns the archive. -/
def writeArchive (options : WriterOptions) (calls : List Call) : Outcome Error Bytes := do
  let writer ← newWriterWithOptions options
  match addAll calls writer with
  | .error stop _ => .error stop
  | .ok () after => after.finish

/-- What an entry is compared by: its name, its kind and permissions, and its contents. -/
structure Content where
  name : Text
  mode : ℕ
  data : List UInt8
deriving DecidableEq

/-- What matters of an entry. -/
def Entry.content (entry : Entry) : Content :=
  ⟨entry.name, entry.mode, contents entry.data⟩

/-- What an entry of this call holds. -/
def Call.content (call : Call) : Content :=
  ⟨call.name, call.mode, contents call.data⟩

/-- The limits let all entries and the trailer pass. -/
structure LargeEnough (limits : ReaderLimits) (calls : List Call) : Prop where
  names : ∀ call ∈ calls, call.name.byteLen + 1 ≤ limits.maxNameSize.toNat
  trailer : trailerName.byteLen + 1 ≤ limits.maxNameSize.toNat
  files : ∀ call ∈ calls, length call.data ≤ limits.maxFileSize.toNat
  total : (calls.map fun call => length call.data).sum ≤ limits.maxTotalSize.toNat
  entries : calls.length ≤ limits.maxEntries.toNat

/-- The reader returns exactly these entries, and then `End`. -/
def Returns (reader : Reader) (calls : List Call) : Prop :=
  ∃ (entries : List Entry) (after : Reader),
    Method.Calls Reader.next reader (entries.map .ok ++ [.error .endOfArchive]) after ∧
      entries.map Entry.content = calls.map Call.content

/-! ### What the checks of `add` say -/

theorem name_of_validName {v : Text} (valid : validName v = true) :
    v.bytes ≠ [] ∧ ∀ b ∈ v.bytes, b ≠ 0 := by
  obtain ⟨segments, zero, -⟩ := (validName_iff v).mp valid
  refine ⟨fun none => ?_, fun b mem same => zero (same ▸ mem)⟩
  rw [none] at segments
  exact (segments [] mem_cons_self).1 rfl

/-- What `add` has checked when it writes an entry. -/
structure Admitted (name : Text) (data : Bytes) (stored : Storage) : Prop where
  held : data.handle = some stored
  nonempty : name.bytes ≠ []
  nonzero : ∀ byte ∈ name.bytes, byte ≠ 0
  dataSmall : stored.data.length < 2 ^ 32
  nameSmall : name.byteLen + 1 < 2 ^ 32

theorem Bytes.of_len {data : Bytes} {size : ℕ} (same : data.len = .ok size) :
    ∃ stored, data.handle = some stored ∧ size = stored.data.length := by
  unfold Bytes.len at same
  split at same
  · cases same
  · rename_i stored held
    cases same
    exact ⟨stored, held, rfl⟩

theorem Builder.of_length {builder : Builder} {size : ℕ} (same : builder.length = .ok size) :
    ∃ storage, builder.handle = some storage ∧ size = storage.data.length := by
  unfold Builder.length at same
  split at same
  · cases same
  · rename_i storage held
    cases same
    exact ⟨storage, held, rfl⟩

theorem admitted_of_checkEntry {name : Text} {data : Bytes} {dataSize : ℕ}
    (passed : writer.checkEntry name data = .ok dataSize) :
    ∃ stored storage, Admitted name data stored ∧ dataSize = stored.data.length ∧
      writer.builder.handle = some storage ∧ storage.data.length + (110 + (name.byteLen + 1) +
        padding4 (110 + (name.byteLen + 1)) + dataSize + padding4 dataSize) ≤
          writer.limits.maxArchiveSize.toNat := by
  unfold Writer.checkEntry at passed
  split at passed
  · cases passed
  · rename_i valid
    rw [Bool.not_eq_true', Bool.not_eq_false] at valid
    obtain ⟨nonempty, nonzero⟩ := name_of_validName valid
    dsimp only at passed
    split at passed
    · cases passed
    · obtain ⟨nameSize, sized, passed⟩ := bind_eq_ok.mp passed
      obtain ⟨_, rfl⟩ := checked_eq_ok.mp sized
      obtain ⟨size, measured, passed⟩ := bind_eq_ok.mp passed
      obtain ⟨stored, held, rfl⟩ := Bytes.of_len (mapErr_eq_ok.mp measured)
      split at passed
      · cases passed
      · split at passed
        · cases passed
        · split at passed
          · cases passed
          · obtain ⟨encodedSize, summed, passed⟩ := bind_eq_ok.mp passed
            obtain ⟨_, rfl⟩ := checked_eq_ok.mp summed
            obtain ⟨currentSize, built, passed⟩ := bind_eq_ok.mp passed
            obtain ⟨storage, opened, rfl⟩ := Builder.of_length (mapErr_eq_ok.mp built)
            split at passed
            · cases passed
            · rename_i room
              split at passed
              · cases passed
              · rename_i dataSmall
                split at passed
                · cases passed
                · rename_i nameSmall
                  cases passed
                  exact ⟨stored, storage,
                    ⟨held, nonempty, nonzero, by omega, by omega⟩, rfl, opened, by omega⟩

/-! ### The archive that is written -/

/-- The entries of calls; the first of them gets this inode. -/
def entriesBytes (writer : Writer) : ℕ → List Call → List UInt8
  | _, [] => []
  | inode, call :: calls =>
    entryBytes inode call.mode writer.uid.toNat writer.gid.toNat call.links writer.mtime.toNat
      call.name.bytes (contents call.data) ++ entriesBytes writer (inode + 1) calls

/-- The builder has these bytes. -/
def Holds (writer : Writer) (bytes : List UInt8) : Prop :=
  ∃ storage, writer.builder.handle = some storage ∧ storage.data = bytes

/-- The second writer is the first one with more entries. -/
structure Follows (writer after : Writer) (count : ℕ) : Prop where
  inode : after.inode = writer.inode + count
  uid : after.uid = writer.uid
  gid : after.gid = writer.gid
  mtime : after.mtime = writer.mtime

theorem add_ok {name : Text} {mode links : ℕ} {data : Bytes}
    (holds : Holds writer bytes) (added : Writer.add name mode links data writer = .ok () after) :
    (∃ stored, Admitted name data stored) ∧ Follows writer after 1 ∧
      Holds after (bytes ++ entryBytes writer.inode mode writer.uid.toNat writer.gid.toNat links
        writer.mtime.toNat name.bytes (contents data)) := by
  obtain ⟨storage, held, rfl⟩ := holds
  unfold Writer.add at added
  split at added
  · cases added
  · rename_i dataSize passed
    obtain ⟨stored, _, admitted, rfl, _⟩ := admitted_of_checkEntry passed
    split at added
    · cases added
    · rename_i builder written
      split at added
      · cases added
        have opened : writer.builder = ⟨some storage⟩ := by
          cases builder : writer.builder
          rw [builder] at held
          exact congrArg _ held
        rw [opened] at written
        obtain ⟨final, rfl, appended⟩ := (appends_writeEntry _ _ _ _ _ _ name admitted.held).writes _ _ written
        have same : contents data = stored.data := by
          unfold contents
          rw [admitted.held]
        rw [same]
        exact ⟨⟨stored, admitted⟩, ⟨rfl, rfl, rfl, rfl⟩, final, rfl, appended⟩
      · cases added

theorem links_lt (call : Call) : call.links < 2 ^ 32 := by
  cases call with
  | addDir =>
    show 2 < 2 ^ 32
    decide
  | addFile =>
    show 1 < 2 ^ 32
    decide

/-- What is known of a call that returned `Ok`. -/
def Call.Accepted (call : Call) : Prop :=
  call.mode < 2 ^ 32 ∧ ∃ stored, Admitted call.name call.data stored

theorem permitted_of_ok {permissions : UInt32} {add : Method Writer Error Unit}
    (ran : (if permissions > 511 then throw (.err .invalidPermissions) else add :
      Method Writer Error Unit) writer = .ok () after) :
    permissions.toNat ≤ 511 ∧ add writer = .ok () after := by
  by_cases large : permissions > 511
  · rw [if_pos large] at ran
    cases ran
  · rw [if_neg large] at ran
    rw [gt_iff_lt, UInt32.lt_iff_toNat_lt] at large
    exact ⟨Nat.le_of_not_lt large, ran⟩

theorem run_ok {call : Call} (holds : Holds writer bytes)
    (ran : call.run writer = .ok () after) :
    call.Accepted ∧ Follows writer after 1 ∧
      Holds after (bytes ++ entryBytes writer.inode call.mode writer.uid.toNat writer.gid.toNat
        call.links writer.mtime.toNat call.name.bytes (contents call.data)) := by
  cases call with
  | addDir name permissions =>
    obtain ⟨bound, added⟩ := permitted_of_ok ran
    obtain ⟨admitted, follows, holds⟩ := add_ok holds added
    refine ⟨⟨?_, admitted⟩, follows, holds⟩
    show 16384 + permissions.toNat < 2 ^ 32
    omega
  | addFile name permissions =>
    obtain ⟨bound, added⟩ := permitted_of_ok ran
    obtain ⟨admitted, follows, holds⟩ := add_ok holds added
    refine ⟨⟨?_, admitted⟩, follows, holds⟩
    show 32768 + permissions.toNat < 2 ^ 32
    omega

theorem Follows.entriesBytes_eq {n : ℕ} (follows : Follows writer after n)
    (calls : List Call) :
    ∀ inode, entriesBytes after inode calls = entriesBytes writer inode calls := by
  induction calls with
  | nil =>
    intro inode
    rfl
  | cons call calls ih =>
    intro inode
    unfold entriesBytes
    rw [ih, follows.uid, follows.gid, follows.mtime]

/-- **The entries are written one after the other.** -/
theorem addAll_ok :
    ∀ {writer after : Writer} {bytes : List UInt8}, Holds writer bytes →
      addAll calls writer = .ok () after →
      (∀ call ∈ calls, call.Accepted) ∧ Follows writer after calls.length ∧
        Holds after (bytes ++ entriesBytes writer writer.inode calls) := by
  induction calls with
  | nil =>
    intro writer after bytes holds added
    cases added
    exact ⟨by simp, ⟨rfl, rfl, rfl, rfl⟩, by simpa [entriesBytes] using holds⟩
  | cons call calls ih =>
    intro writer after bytes holds added
    change EStateM.bind call.run (fun _ => addAll calls) writer = .ok () after at added
    unfold EStateM.bind at added
    split at added
    · rename_i v m ran
      obtain ⟨accepted, follows, holds⟩ := run_ok holds ran
      obtain ⟨others, follows', holds'⟩ := ih holds added
      refine ⟨?_, ⟨?_, follows'.uid.trans follows.uid, follows'.gid.trans follows.gid,
        follows'.mtime.trans follows.mtime⟩, ?_⟩
      · intro y mem
        rcases mem_cons.mp mem with rfl | mem
        · exact accepted
        · exact others y mem
      · rw [follows'.inode, follows.inode, length_cons]
        omega
      · rw [follows.entriesBytes_eq, follows.inode, append_assoc] at holds'
        exact holds'
    · cases added

/-- The trailer that a writer puts behind its entries. -/
def trailerBytes (writer : Writer) : List UInt8 :=
  headerBytes writer.inode 0 0 0 1 writer.mtime.toNat 0 (trailerName.byteLen + 1) ++
    nameBytes trailerName.bytes

theorem appends_writeTrailer (writer : Writer) :
    Appends (writeTrailer writer.inode writer.mtime.toNat (trailerName.byteLen + 1))
      (trailerBytes writer) := by
  have terminator : Appends (writeByte 0) [0] := appends_writeByte (by decide)
  have header := appends_writeHeader writer.inode 0 0 0 1 writer.mtime.toNat 0
    (trailerName.byteLen + 1)
  have appends := header.seq ((appends_writeText trailerName).seq (terminator.seq
    (appends_writePadding (110 + (trailerName.byteLen + 1)))))
  unfold trailerBytes nameBytes writeTrailer
  rw [append_assoc trailerName.bytes]
  exact appends

theorem finish_ok {archive : Bytes} (holds : Holds writer bytes)
    (finished : writer.finish = .ok archive) :
    ∃ stored, archive.handle = some stored ∧ stored.data = bytes ++ trailerBytes writer := by
  obtain ⟨storage, held, rfl⟩ := holds
  have opened : writer.builder = ⟨some storage⟩ := by rw [← held]
  unfold Writer.finish at finished
  dsimp only at finished
  obtain ⟨_, _, finished⟩ := bind_eq_ok.mp finished
  obtain ⟨_, _, finished⟩ := bind_eq_ok.mp finished
  split at finished
  · cases finished
  · rw [opened] at finished
    split at finished
    · rename_i result builder wrote
      cases finished
      obtain ⟨_, taken, appended⟩ := (appends_writeTrailer writer).writes.next wrote
      cases taken
      exact ⟨_, rfl, appended⟩
    · cases finished

/-- **The archive is the entries one after the other, and the trailer.** -/
theorem written_bytes {options : WriterOptions} {archive : Bytes}
    (written : writeArchive options calls = .ok archive) : ∃ writer stored after,
      archive.handle = some stored ∧ (∀ call ∈ calls, call.Accepted) ∧
        stored.data = entriesBytes writer writer.inode calls ++ trailerBytes after := by
  obtain ⟨writer, opened, written⟩ := bind_eq_ok.mp written
  split at written
  · cases written
  rename_i after added
  have empty : Holds writer [] := by
    unfold newWriterWithOptions at opened
    split at opened
    · cases opened
    · cases opened
      exact ⟨_, rfl, rfl⟩
  obtain ⟨ran, _, holds⟩ := addAll_ok empty added
  obtain ⟨stored, held, same⟩ := finish_ok holds written
  exact ⟨writer, stored, after, held, ran, same⟩

/-! ### Reading it back -/

theorem length_fill (size : ℕ) : (fill size).length = padding4 size :=
  length_replicate

theorem length_nameBytes (name : Text) :
    (nameBytes name.bytes).length = name.byteLen + 1 + padding4 (110 + (name.byteLen + 1)) := by
  simp only [nameBytes, length_append, length_singleton, length_fill, Text.byteLen]

/-- The reader is inside an archive. -/
structure Reading (reader : Reader) (stored : Storage) : Prop where
  held : reader.archive.handle = some stored
  going : reader.done = false
  aligned : 4 ∣ reader.cursor

section

variable {reader : Reader} {stored : Storage} {name : Text} {header : Header}

theorem find_eq (reading : Reading reader stored) (admitted : reader.Admits header)
    {inode : ℕ} {rest : List UInt8}
    (there : At stored.data reader.cursor (headerBytes inode header.mode header.uid header.gid
      header.nlink header.mtime header.fileSize header.nameSize ++ rest))
    (modeSmall : header.mode < 2 ^ 32) (uidSmall : header.uid < 2 ^ 32)
    (gidSmall : header.gid < 2 ^ 32) (linksSmall : header.nlink < 2 ^ 32)
    (mtimeSmall : header.mtime < 2 ^ 32) :
    reader.find = reader.findName stored.data.length header := by
  have inside := there.left.le
  rw [length_headerBytes] at inside
  have magicAt : At stored.data reader.cursor magic := there.left.left
  have open' : ¬reader.done = true := by
    rw [reading.going]
    decide
  have measured : reader.archive.len = .ok stored.data.length := by
    unfold Bytes.len
    rw [reading.held]
  have fit : fits stored.data.length reader.cursor 110 = true := fits_iff.mpr (by omega)
  have total := admitted.total
  have withinTotal : ¬(reader.totalSize > reader.limits.maxTotalSize.toNat ∨
      header.fileSize > reader.limits.maxTotalSize.toNat - reader.totalSize) := by
    omega
  unfold Reader.find
  rw [if_neg open', measured, mapErr_ok, ok_bind, if_neg (by omega), if_neg (by simp [fit]),
    matchesMagic_eq reading.held magicAt, ok_bind, if_neg (by decide),
    readHeader_eq reading.held there.left modeSmall uidSmall gidSmall linksSmall mtimeSmall
      admitted.fileSmall admitted.nameSmall,
    ok_bind, if_neg admitted.named, if_neg (Nat.not_lt.mpr admitted.name),
    if_neg (Nat.not_lt.mpr admitted.file), if_neg withinTotal]

theorem findName_eq (reading : Reading reader stored)
    (nonempty : name.bytes ≠ []) (nonzero : ∀ b ∈ name.bytes, b ≠ 0)
    (sized : header.nameSize = name.byteLen + 1)
    (there : At stored.data (reader.cursor + 110) (nameBytes name.bytes)) :
    reader.findName stored.data.length header =
      if name = trailerName then .ok (.trailer (reader.cursor + 110 + (nameBytes name.bytes).length))
      else reader.findData stored.data.length (reader.cursor + 110 + (nameBytes name.bytes).length)
        header name := by
  have inside := there.le
  have short := stored.short
  have size := length_nameBytes name
  have padded := padding4_add reading.aligned (110 + (name.byteLen + 1))
  rw [← Nat.add_assoc] at padded
  have fit : fits stored.data.length (reader.cursor + 110) (name.byteLen + 1) = true :=
    fits_iff.mpr (by omega)
  have dataStart : reader.cursor + 110 + (name.byteLen + 1) +
      padding4 (110 + (name.byteLen + 1)) = reader.cursor + 110 + (nameBytes name.bytes).length := by
    omega
  unfold Reader.findName
  rw [checked_bind (by omega), sized, if_neg (by simp [fit]), checked_bind (by omega),
    readName_eq reading.held name nonzero nonempty there, ok_bind, aligned4_eq (by omega), ok_bind,
    padded, dataStart, if_neg (by omega)]
  by_cases trailer : name = trailerName
  · rw [if_pos trailer, if_pos (Text.equal_iff.mpr trailer)]
  · rw [if_neg trailer, if_neg fun same => trailer (Text.equal_iff.mp same)]

theorem findData_eq (reading : Reading reader stored) {dataStart : ℕ} (aligned : 4 ∣ dataStart)
    {data : List UInt8} (sized : header.fileSize = data.length)
    (room : reader.entries < reader.limits.maxEntries.toNat)
    (there : At stored.data dataStart (data ++ fill data.length)) :
    ∃ entry : Entry, reader.findData stored.data.length dataStart header name =
        .ok (.entry (dataStart + (data ++ fill data.length).length) data.length entry) ∧
      entry.content = ⟨name, header.mode, data⟩ := by
  have inside := there.le
  have short := stored.short
  have padded := padding4_add aligned data.length
  rw [length_append, length_fill] at inside
  have fit : fits stored.data.length dataStart data.length = true := fits_iff.mpr (by omega)
  have next : dataStart + data.length + padding4 data.length =
      dataStart + (data ++ fill data.length).length := by
    rw [length_append, length_fill]
    omega
  obtain ⟨part, sliced, same⟩ := slice_eq reading.held there.left
  unfold Reader.findData
  rw [if_neg (by omega), sized, if_neg (by simp [fit]), checked_bind (by omega),
    aligned4_eq (by omega), ok_bind, padded, if_neg (by omega), sliced, mapErr_ok, ok_bind, next]
  exact ⟨_, rfl, congrArg (Content.mk name header.mode) same⟩

end

/-- The limits of a reader let these entries and the trailer pass. -/
structure Sufficient (reader : Reader) (calls : List Call) : Prop where
  names : ∀ call ∈ calls, call.name.byteLen + 1 ≤ reader.limits.maxNameSize.toNat
  trailer : trailerName.byteLen + 1 ≤ reader.limits.maxNameSize.toNat
  files : ∀ call ∈ calls, length call.data ≤ reader.limits.maxFileSize.toNat
  total : reader.totalSize + (calls.map fun call => length call.data).sum ≤
    reader.limits.maxTotalSize.toNat
  entries : reader.entries + calls.length ≤ reader.limits.maxEntries.toNat

theorem next_trailer {reader : Reader} {stored : Storage} (reading : Reading reader stored)
    (sufficient : Sufficient reader []) (there : At stored.data reader.cursor (trailerBytes writer)) :
    ∃ after, Method.Returns Reader.next reader (.error .endOfArchive) after := by
  let header : Header := {
    mode := 0
    uid := 0
    gid := 0
    nlink := 1
    mtime := writer.mtime.toNat
    fileSize := 0
    nameSize := trailerName.byteLen + 1 }
  have admitted : reader.Admits header := {
    named := Nat.succ_ne_zero _
    name := sufficient.trailer
    file := Nat.zero_le _
    total := sufficient.total
    nameSmall := by
      show trailerName.byteLen + 1 < 2 ^ 32
      decide
    fileSmall := by
      show 0 < 2 ^ 32
      decide }
  have nameAt := there.right
  rw [length_headerBytes] at nameAt
  have found := find_eq reading admitted there (Nat.two_pow_pos 32) (Nat.two_pow_pos 32)
    (Nat.two_pow_pos 32) (Nat.one_lt_two_pow (by decide)) writer.mtime.toNat_lt
  have nonzero : ∀ b ∈ trailerName.bytes, b ≠ 0 := by simp [trailerName]
  rw [findName_eq reading (by decide) nonzero rfl nameAt, if_pos rfl] at found
  exact ⟨_, next_of_trailer found⟩

theorem dvd_dataStart {cursor : ℕ} (aligned : 4 ∣ cursor) (name : Text) :
    4 ∣ cursor + 110 + (nameBytes name.bytes).length := by
  have filled := add_padding4 (110 + (name.byteLen + 1))
  rw [length_nameBytes]
  omega

theorem next_entry {reader : Reader} {stored : Storage} {inode : ℕ} {call : Call}
    {rest : List UInt8} (reading : Reading reader stored)
    (sufficient : Sufficient reader (call :: calls)) (ran : call.Accepted)
    (there : At stored.data reader.cursor (entryBytes inode call.mode writer.uid.toNat
      writer.gid.toNat call.links writer.mtime.toNat call.name.bytes (contents call.data) ++ rest)) :
    (call.name = trailerName ∧
      ∃ after, Method.Returns Reader.next reader (.error .endOfArchive) after) ∨
    (call.name ≠ trailerName ∧ ∃ entry after, Method.Returns Reader.next reader (.ok entry) after ∧
      entry.content = call.content ∧ Reading after stored ∧ Sufficient after calls ∧
      At stored.data after.cursor rest) := by
  obtain ⟨modeSmall, data, admittedCall⟩ := ran
  have same : contents call.data = data.data := by
    unfold contents
    rw [admittedCall.held]
  have size : length call.data = (contents call.data).length := (length_contents _).symm
  have total := sufficient.total
  rw [map_cons, sum_cons] at total
  have room := sufficient.entries
  rw [length_cons] at room
  let header : Header := {
    mode := call.mode
    uid := writer.uid.toNat
    gid := writer.gid.toNat
    nlink := call.links
    mtime := writer.mtime.toNat
    fileSize := (contents call.data).length
    nameSize := call.name.byteLen + 1 }
  have admitted : reader.Admits header := {
    named := Nat.succ_ne_zero _
    name := sufficient.names call mem_cons_self
    file := by
      show (contents call.data).length ≤ reader.limits.maxFileSize.toNat
      rw [← size]
      exact sufficient.files call mem_cons_self
    total := by
      show reader.totalSize + (contents call.data).length ≤ reader.limits.maxTotalSize.toNat
      omega
    nameSmall := admittedCall.nameSmall
    fileSmall := by
      show (contents call.data).length < 2 ^ 32
      rw [same]
      exact admittedCall.dataSmall }
  have entryAt := there.left
  have restAt := there.right
  unfold entryBytes at entryAt
  have headerAt := entryAt.left.left
  have nameAt := entryAt.left.right
  have dataAt := entryAt.right
  rw [length_append, length_headerBytes, ← Nat.add_assoc] at dataAt
  rw [length_headerBytes] at nameAt
  have found := find_eq reading admitted entryAt.left modeSmall writer.uid.toNat_lt
    writer.gid.toNat_lt (links_lt call) writer.mtime.toNat_lt
  rw [findName_eq reading admittedCall.nonempty admittedCall.nonzero rfl nameAt] at found
  by_cases trailer : call.name = trailerName
  · rw [if_pos trailer] at found
    exact .inl ⟨trailer, _, next_of_trailer found⟩
  · refine .inr ⟨trailer, ?_⟩
    rw [if_neg trailer] at found
    obtain ⟨entry, read, content⟩ := @findData_eq reader stored call.name header reading _
      (dvd_dataStart reading.aligned call.name) _ rfl (by omega) dataAt
    rw [read] at found
    have cursor : reader.cursor + 110 + (nameBytes call.name.bytes).length +
        (contents call.data ++ fill (contents call.data).length).length = reader.cursor +
          (entryBytes inode call.mode writer.uid.toNat writer.gid.toNat call.links
            writer.mtime.toNat call.name.bytes (contents call.data)).length := by
      simp only [entryBytes, length_append, length_headerBytes]
      omega
    rw [cursor] at found
    refine ⟨entry, _, next_of_entry found (by omega) (by omega), content, ?_, ?_, restAt⟩
    · exact ⟨reading.held, reading.going, (Nat.dvd_add_right reading.aligned).mpr
        (dvd_length_entryBytes _ _ _ _ _ _ _ _)⟩
    · exact {
        names := fun y mem => sufficient.names y (mem_cons_of_mem _ mem)
        trailer := sufficient.trailer
        files := fun y mem => sufficient.files y (mem_cons_of_mem _ mem)
        total := by
          show reader.totalSize + (contents call.data).length +
            (calls.map fun call => length call.data).sum ≤ reader.limits.maxTotalSize.toNat
          omega
        entries := by
          show reader.entries + 1 + calls.length ≤ reader.limits.maxEntries.toNat
          omega }

/-- **The reader returns the entries in front of the first one with the name of the trailer.** -/
theorem reads_until_trailer {stored : Storage} (calls : List Call) :
    ∀ {reader : Reader} {inode : ℕ}, Reading reader stored → Sufficient reader calls →
      (∀ call ∈ calls, call.Accepted) →
      At stored.data reader.cursor (entriesBytes writer inode calls ++ trailerBytes after) →
      ∃ (entries : List Entry) (final : Reader),
        Method.Calls Reader.next reader (entries.map .ok ++ [.error .endOfArchive]) final ∧
          entries.map Entry.content =
            (calls.takeWhile fun call => call.name ≠ trailerName).map Call.content := by
  induction calls with
  | nil =>
    intro reader inode reading sufficient _ there
    obtain ⟨final, returned⟩ := next_trailer reading sufficient there
    exact ⟨[], final, Method.Calls.none.snoc returned, rfl⟩
  | cons call calls ih =>
    intro reader inode reading sufficient ran there
    unfold entriesBytes at there
    rw [append_assoc] at there
    rcases next_entry reading sufficient (ran call mem_cons_self) there with
      ⟨trailer, final, returned⟩ | ⟨ne, entry, m, returned, content, reading, sufficient, there⟩
    · refine ⟨[], final, Method.Calls.none.snoc returned, ?_⟩
      rw [takeWhile_cons_of_neg (by simpa using trailer)]
      rfl
    · obtain ⟨entries, final, returns, same⟩ := ih reading sufficient
        (fun y mem => ran y (mem_cons_of_mem _ mem)) there
      refine ⟨entry :: entries, final, Method.Calls.cons returned returns, ?_⟩
      rw [takeWhile_cons_of_pos (by simpa using ne), map_cons, map_cons, content, same]

section

variable {options : WriterOptions} {calls : List Call} {archive : Bytes} {limits : ReaderLimits}
  {reader : Reader}

section

variable (written : writeArchive options calls = .ok archive)
include written

section

variable (large : LargeEnough limits calls)
  (opened : newReaderWithLimits archive limits = .ok reader)
include large opened

theorem reads_archive :
    ∃ (entries : List Entry) (final : Reader),
      Method.Calls Reader.next reader (entries.map .ok ++ [.error .endOfArchive]) final ∧
        entries.map Entry.content =
          (calls.takeWhile fun call => call.name ≠ trailerName).map Call.content := by
  obtain ⟨writer, stored, after, held, ran, same⟩ := written_bytes written
  unfold newReaderWithLimits at opened
  split at opened
  · cases opened
  · cases opened
    have there : At stored.data 0 (entriesBytes writer writer.inode calls ++ trailerBytes after) :=
      ⟨[], [], by simp [same], rfl⟩
    refine reads_until_trailer calls ⟨held, rfl, Nat.dvd_zero 4⟩
      ⟨large.names, large.trailer, large.files, ?_, ?_⟩ ran there
    · simpa using large.total
    · simpa using large.entries

/-- **An entry with the name of the trailer hides itself and what is behind it.** -/
theorem not_returns_of_trailer {call : Call} (mem : call ∈ calls)
    (trailer : call.name = trailerName) : ¬Returns reader calls := by
  rintro ⟨_, _, returns', content'⟩
  obtain ⟨_, _, returns, content⟩ := reads_archive written large opened
  rw [returns.values_unique returns', content'] at content
  have size := congrArg List.length content
  rw [length_map, length_map] at size
  have all := (List.takeWhile_prefix _).eq_of_length size.symm
  have ne := takeWhile_eq_self_iff.mp all call mem
  exact (of_decide_eq_true ne) trailer

theorem returns_of_names
    (ne : ∀ call ∈ calls, call.name ≠ trailerName) : Returns reader calls := by
  obtain ⟨entries, final, returns, content⟩ := reads_archive written large opened
  rw [takeWhile_eq_self_iff.mpr fun call mem => decide_eq_true (ne call mem)]
    at content
  exact ⟨entries, final, returns, content⟩

end

end

/-- **The round trip.** The reader returns what has been added exactly when nothing has been added
under the name of the trailer. -/
theorem round_trip_iff (written : writeArchive options calls = .ok archive)
    (large : LargeEnough limits calls)
    (opened : newReaderWithLimits archive limits = .ok reader) :
    Returns reader calls ↔ ∀ call ∈ calls, call.name ≠ trailerName := by
  constructor
  · intro returns call mem trailer
    exact not_returns_of_trailer written large opened mem trailer returns
  · exact returns_of_names written large opened

end

/-! ### Two archives -/

/-- The default options of the package. -/
def defaultWriterOptions : WriterOptions where
  uid := 0
  gid := 0
  mtime := 0
  limits := {
    maxNameSize := 4096
    maxFileSize := 67108864
    maxTotalSize := 536870912
    maxEntries := 100000
    maxArchiveSize := 1073741824 }

/-- The default limits of the package. -/
def defaultReaderLimits : ReaderLimits where
  maxNameSize := 4096
  maxFileSize := 67108864
  maxTotalSize := 536870912
  maxEntries := 100000

/-- One file with the contents `x`. -/
def oneFile (name : Text) : List Call :=
  [.addFile name 420 (fromText (.literal [120]))]

theorem largeEnough_oneFile {name : Text} (short : name.byteLen < 4096) :
    LargeEnough defaultReaderLimits (oneFile name) where
  names call member := by
    obtain rfl := mem_singleton.mp member
    exact short
  trailer := by decide
  files call member := by
    obtain rfl := mem_singleton.mp member
    show 1 ≤ 67108864
    decide
  total := by
    show 1 ≤ 536870912
    decide
  entries := by
    show 1 ≤ 100000
    decide

/-- The writer accepts a file of the name `TRAILER!!!`, and the reader does not return it. -/
theorem trailer_not_returned : ∃ archive reader,
    writeArchive defaultWriterOptions (oneFile trailerName) = .ok archive ∧
      LargeEnough defaultReaderLimits (oneFile trailerName) ∧
      newReaderWithLimits archive defaultReaderLimits = .ok reader ∧
      ¬Returns reader (oneFile trailerName) := by
  have written : (writeArchive defaultWriterOptions (oneFile trailerName)).isOk = true := by
    decide +kernel
  cases same : writeArchive defaultWriterOptions (oneFile trailerName) with
  | error =>
    rw [same] at written
    cases written
  | ok archive =>
    have large := largeEnough_oneFile (show trailerName.byteLen < 4096 by decide)
    exact ⟨archive, _, rfl, large, rfl,
      not_returns_of_trailer same large rfl mem_cons_self rfl⟩

/-- A file of the name `a` comes back. -/
theorem round_trip_iff_a : ∃ archive reader,
    writeArchive defaultWriterOptions (oneFile (.literal [97])) = .ok archive ∧
      newReaderWithLimits archive defaultReaderLimits = .ok reader ∧
      (Returns reader (oneFile (.literal [97])) ↔
        ∀ call ∈ oneFile (.literal [97]), call.name ≠ trailerName) := by
  have written : (writeArchive defaultWriterOptions (oneFile (.literal [97]))).isOk = true := by
    decide +kernel
  cases same : writeArchive defaultWriterOptions (oneFile (.literal [97])) with
  | error =>
    rw [same] at written
    cases written
  | ok archive =>
    have large := largeEnough_oneFile (show Text.byteLen (.literal [97]) < 4096 by decide)
    exact ⟨archive, _, rfl, rfl, round_trip_iff same large rfl⟩

end FoundationLang.Standard.Cpio
