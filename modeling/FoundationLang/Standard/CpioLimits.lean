/-
**Reading an archive is safe, bounded and ends.**

Sizes and positions come from the archive. Each of them is compared with the length of the archive
before it is used, so that no number overflows and no byte outside is read.
-/

import FoundationLang.Standard.CpioReader
import Mathlib.Algebra.GroupWithZero.Nat

namespace FoundationLang.Standard.Cpio

open Library Outcome

variable {reader : Reader} {results : List (Except Error Entry)} {after : Reader}

/-- The number of bytes; 0 once they are released. -/
def length (value : Bytes) : ℕ :=
  match value.handle with
  | none => 0
  | some storage => storage.data.length

theorem length_lt (v : Bytes) : length v < 2 ^ 63 := by
  unfold length
  split
  · decide
  · rename_i storage _
    exact storage.short

/-! ### Reading bytes -/

theorem len_ensures (v : Bytes) : Ensures v.len (· = length v) := by
  unfold Bytes.len
  cases held : v.handle with
  | none => exact ensures_err _
  | some => exact ensures_ok (by rw [length, held])

theorem atIndex_ensures (v : Bytes) (i : ℕ) :
    Ensures (v.atIndex i) (· < 256) := by
  unfold Bytes.atIndex
  split
  · exact ensures_err _
  · split
    · exact ensures_err _
    · rename_i b _
      exact ensures_ok b.toNat_lt

theorem text_ensures (value : Bytes) :
    Ensures value.text fun text => text.byteLen = length value := by
  unfold Bytes.text
  cases held : value.handle with
  | none => exact ensures_err _
  | some =>
    dsimp only
    split
    · exact ensures_ok (by rw [length, held, Text.byteLen])
    · exact ensures_err _

theorem slice_ensures (v : Bytes) (start stop : ℕ) :
    Ensures (v.slice start stop) fun part => length part = stop - start := by
  unfold Bytes.slice
  split
  · exact ensures_err _
  · rename_i storage _
    refine ensures_ite (fun _ => ensures_err _) fun inside => ensures_ok ?_
    show ((storage.data.take stop).drop start).length = stop - start
    simp only [List.length_drop, List.length_take]
    omega

/-! ### Numbers -/

theorem padding4_lt (v : ℕ) : padding4 v < 4 := by
  unfold padding4
  split_ifs <;> omega

theorem aligned4_ensures {value : ℕ} (small : value + 3 < 2 ^ 64) :
    Ensures (aligned4 value) fun aligned => value ≤ aligned ∧ aligned = value + padding4 value := by
  have padded := padding4_lt value
  refine (ensures_checked (by omega)).mono ?_
  rintro _ rfl
  omega

theorem hexDigit_ensures (v : ℕ) : Ensures (hexDigit v) (· < 16) := by
  unfold hexDigit
  refine ensures_ite (fun decimal => ensures_ok (by omega)) fun _ => ?_
  refine ensures_ite (fun upper => ensures_ok (by omega)) fun _ => ?_
  exact ensures_ite (fun lower => ensures_ok (by omega)) fun _ => ensures_err _

theorem readHexDigits_ensures (v : Bytes) {start : ℕ} (ds : ℕ) :
    ∀ offset result, start + offset + ds < 2 ^ 64 → result < 16 ^ offset → offset + ds ≤ 8 →
      Ensures (readHexDigits v start offset result ds) (· < 16 ^ (offset + ds)) := by
  induction ds with
  | zero =>
    intro offset result _ small _
    exact ensures_ok small
  | succ ds ih =>
    intro offset result inside small short
    have power : 16 ^ offset ≤ 16 ^ 7 := Nat.pow_le_pow_right (by omega) (by omega)
    refine (ensures_checked (by omega)).bind ?_
    rintro index rfl
    refine (atIndex_ensures _ _).mapErr.bind fun encoded _ => ?_
    refine (hexDigit_ensures encoded).bind fun digit least => ?_
    refine (ensures_checked (by omega)).bind ?_
    rintro next rfl
    have bound : result * 16 + digit < 16 ^ (offset + 1) := by
      rw [Nat.pow_succ]
      omega
    have rest := ih (offset + 1) (result * 16 + digit) (by omega) bound (by omega)
    rwa [Nat.add_assoc, Nat.add_comm 1 ds] at rest

theorem readHex8_ensures (v : Bytes) {start : ℕ} (inside : start + 8 < 2 ^ 64) :
    Ensures (readHex8 v start) (· < 2 ^ 32) := by
  refine (readHexDigits_ensures v 8 0 0 inside (by decide) (by decide)).bind
    fun result small => ?_
  have same : 16 ^ (0 + 8) = 2 ^ 32 := by decide
  rw [same] at small
  refine ensures_ite (fun _ => ensures_ok small) fun large => absurd small large

theorem matchesBytes_ensures (v : Bytes) (start : ℕ) (want : List ℕ) :
    ∀ offset, start + offset + want.length < 2 ^ 64 →
      Ensures (matchesBytes v start offset want) fun _ => True := by
  induction want with
  | nil =>
    intro offset _
    exact ensures_ok trivial
  | cons b rest ih =>
    intro offset inside
    rw [List.length_cons] at inside
    refine (ensures_checked (by omega)).bind fun index _ => ?_
    exact ensures_ite (fun _ => ih _ (by omega)) fun _ => ensures_ok trivial

theorem readHeader_ensures (archive : Bytes) {cursor : ℕ} (inside : cursor + 110 < 2 ^ 64) :
    Ensures (readHeader archive cursor) fun header =>
      header.fileSize < 2 ^ 32 ∧ header.nameSize < 2 ^ 32 := by
  have field : ∀ offset, offset + 8 ≤ 110 → ∀ {α : Type} {next : ℕ → Outcome Error α} {post : α → Prop},
      (∀ v, v < 2 ^ 32 → Ensures (next v) post) →
      Ensures (checked (cursor + offset) >>= fun start => readHex8 archive start >>= next) post := by
    intro offset small α next post later
    refine (ensures_checked (by omega)).bind ?_
    rintro start rfl
    exact (readHex8_ensures archive (by omega)).bind later
  refine field 14 (by omega) fun mode _ => field 22 (by omega) fun uid _ => ?_
  refine field 30 (by omega) fun gid _ => field 38 (by omega) fun nlink _ => ?_
  refine field 46 (by omega) fun mtime _ => field 54 (by omega) fun fileSize file => ?_
  exact field 94 (by omega) fun nameSize name => ensures_ok ⟨file, name⟩

/-! ### What is found -/

theorem fits_iff {length start size : ℕ} :
    fits length start size = true ↔ start ≤ length ∧ size ≤ length - start := by
  unfold fits
  simp

theorem scanName_ensures (archive : Bytes) (left : ℕ) :
    ∀ nameOffset, Ensures (scanName archive nameOffset left) fun _ => True := by
  induction left with
  | zero =>
    intro nameOffset
    exact ensures_ok trivial
  | succ left ih =>
    intro nameOffset
    refine (atIndex_ensures _ _).mapErr.bind fun v _ => ?_
    exact ensures_ite (fun _ => ensures_err _) fun _ => ih _

theorem readName_ensures (archive : Bytes) {nameStart nameEnd : ℕ} (some : 1 ≤ nameEnd) :
    Ensures (readName archive nameStart nameEnd) fun name =>
      name.byteLen = nameEnd - 1 - nameStart := by
  refine (ensures_checkedSub some).bind ?_
  rintro _ rfl
  refine (atIndex_ensures _ _).mapErr.bind fun terminator _ => ?_
  refine ensures_ite (fun _ => ensures_err _) fun _ => ?_
  refine (scanName_ensures _ _ _).bind fun _ _ => ?_
  refine (slice_ensures _ _ _).mapErr.bind fun nameBytes size => ?_
  refine (text_ensures _).mapErr.bind fun name same => ?_
  exact ensures_ite (fun _ => ensures_err _) fun _ => ensures_ok (same.trans size)

/-- What `Next` may find when it is called in the state `self`. -/
def Reader.Finds (self : Reader) : Found → Prop
  | .trailer cursor => self.cursor < cursor ∧ cursor ≤ length self.archive
  | .entry cursor size entry =>
    self.cursor < cursor ∧ cursor ≤ length self.archive ∧
      self.totalSize + size ≤ self.limits.maxTotalSize.toNat ∧
      self.entries < self.limits.maxEntries.toNat ∧
      size = entry.fileSize ∧ length entry.data = entry.fileSize ∧
      entry.fileSize ≤ self.limits.maxFileSize.toNat ∧
      entry.name.byteLen < self.limits.maxNameSize.toNat

/-- What the checks of the sizes in front of the name say. -/
structure Reader.Admits (reader : Reader) (header : Header) : Prop where
  named : header.nameSize ≠ 0
  name : header.nameSize ≤ reader.limits.maxNameSize.toNat
  file : header.fileSize ≤ reader.limits.maxFileSize.toNat
  total : reader.totalSize + header.fileSize ≤ reader.limits.maxTotalSize.toNat
  nameSmall : header.nameSize < 2 ^ 32
  fileSmall : header.fileSize < 2 ^ 32

theorem findData_ensures {self : Reader} {dataStart : ℕ} {header : Header} {name : Text}
    (admitted : self.Admits header) (behind : self.cursor < dataStart)
    (inside : dataStart ≤ length self.archive)
    (short : name.byteLen < self.limits.maxNameSize.toNat) :
    Ensures (self.findData (length self.archive) dataStart header name) self.Finds := by
  have small := length_lt self.archive
  refine ensures_ite (fun _ => ensures_err _) fun room => ?_
  refine ensures_ite (fun _ => ensures_err _) fun fit => ?_
  rw [Bool.not_eq_true', Bool.not_eq_false, fits_iff] at fit
  refine (ensures_checked (by omega)).bind ?_
  rintro dataEnd rfl
  refine (aligned4_ensures (by omega)).bind fun next aligned => ?_
  refine ensures_ite (fun _ => ensures_err _) fun ends => ?_
  refine (slice_ensures _ _ _).mapErr.bind fun data size => ensures_ok ?_
  refine ⟨by omega, by omega, admitted.total, by omega, rfl, ?_, admitted.file, short⟩
  show length data = header.fileSize
  omega

theorem findName_ensures {self : Reader} {header : Header} (admitted : self.Admits header)
    (fit : self.cursor + 110 ≤ length self.archive) :
    Ensures (self.findName (length self.archive) header) self.Finds := by
  have small := length_lt self.archive
  have named := admitted.named
  have nameSmall := admitted.nameSmall
  have name := admitted.name
  refine (ensures_checked (by omega)).bind ?_
  rintro nameStart rfl
  refine ensures_ite (fun _ => ensures_err _) fun fits => ?_
  rw [Bool.not_eq_true', Bool.not_eq_false, fits_iff] at fits
  refine (ensures_checked (by omega)).bind ?_
  rintro nameEnd rfl
  refine (readName_ensures _ (by omega)).bind fun text size => ?_
  refine (aligned4_ensures (by omega)).bind fun dataStart aligned => ?_
  refine ensures_ite (fun _ => ensures_err _) fun inside => ?_
  refine ensures_ite (fun _ => ensures_ok ?_) fun _ => ?_
  · exact ⟨by omega, by omega⟩
  · exact findData_ensures admitted (by omega) (by omega) (by omega)

/-- **What `Next` finds is behind the cursor, inside the archive and inside the limits.** -/
theorem find_ensures (self : Reader) : Ensures self.find self.Finds := by
  have small := length_lt self.archive
  refine ensures_ite (fun _ => ensures_err _) fun _ => ?_
  refine (len_ensures _).mapErr.bind ?_
  rintro archiveLength rfl
  refine ensures_ite (fun _ => ensures_err _) fun _ => ?_
  refine ensures_ite (fun _ => ensures_err _) fun fit => ?_
  rw [Bool.not_eq_true', Bool.not_eq_false, fits_iff] at fit
  refine (matchesBytes_ensures _ _ _ _ ?_).bind fun magic _ => ?_
  · show self.cursor + 0 + 6 < 2 ^ 64
    omega
  refine ensures_ite (fun _ => ensures_err _) fun _ => ?_
  refine (readHeader_ensures _ (by omega)).bind fun header sizes => ?_
  refine ensures_ite (fun _ => ensures_err _) fun named => ?_
  refine ensures_ite (fun _ => ensures_err _) fun name => ?_
  refine ensures_ite (fun _ => ensures_err _) fun file => ?_
  refine ensures_ite (fun _ => ensures_err _) fun total => ?_
  rw [not_or] at total
  have admitted : self.Admits header := {
    named := named
    name := by omega
    file := by omega
    total := by omega
    nameSmall := sizes.2
    fileSmall := sizes.1 }
  exact findName_ensures admitted (by omega)

/-! ### One call -/

/-- What one call of `Next` does, by what it returns. -/
inductive Reader.Step (reader : Reader) : Except Error Entry → Reader → Prop
  | entry {entry : Entry} {cursor : ℕ} (found : reader.Finds (.entry cursor entry.fileSize entry)) :
      reader.Step (.ok entry) { reader with
        cursor := cursor
        totalSize := reader.totalSize + entry.fileSize
        entries := reader.entries + 1 }
  | trailer {cursor : ℕ} (going : reader.done = false) (found : reader.Finds (.trailer cursor)) :
      reader.Step (.error .endOfArchive) { reader with cursor := cursor, done := true }
  | error (error : Error) : reader.Step (.error error) reader

theorem not_done_of_find {found : Found} (same : reader.find = .ok found) :
    reader.done = false := by
  by_contra done
  unfold Reader.find at same
  rw [if_pos (by simpa using done)] at same
  cases same

theorem next_of_error {error : Error} (found : reader.find = err error) :
    Method.Returns Reader.next reader (.error error) reader := by
  refine .err ?_
  unfold Reader.next
  rw [found]
  rfl

theorem next_of_trailer {cursor : ℕ} (found : reader.find = .ok (.trailer cursor)) :
    Method.Returns Reader.next reader (.error .endOfArchive)
      { reader with cursor := cursor, done := true } := by
  refine .err ?_
  unfold Reader.next
  rw [found]

theorem next_of_entry {cursor size : ℕ} {e : Entry}
    (found : reader.find = .ok (.entry cursor size e))
    (total : reader.totalSize + size ≤ reader.limits.maxTotalSize.toNat)
    (room : reader.entries < reader.limits.maxEntries.toNat) :
    Method.Returns Reader.next reader (.ok e) { reader with
      cursor := cursor
      totalSize := reader.totalSize + size
      entries := reader.entries + 1 } := by
  have totalLimit := reader.limits.maxTotalSize.toNat_lt
  have entryLimit := reader.limits.maxEntries.toNat_lt
  refine .ok ?_
  unfold Reader.next
  rw [found]
  dsimp only
  rw [checked_eq (by omega), checked_eq (by omega)]

/-- **A call of `Next` is a step and does not panic.** -/
theorem next_step (reader : Reader) :
    ∃ result after, Method.Returns Reader.next reader result after ∧ reader.Step result after := by
  have ensured := find_ensures reader
  cases found : reader.find with
  | error stop =>
    cases stop with
    | panic reason => exact absurd found (ensured.1 reason)
    | err error => exact ⟨_, _, next_of_error found, .error error⟩
  | ok v =>
    have finds := ensured.2 v found
    cases v with
    | trailer =>
      exact ⟨_, _, next_of_trailer found, .trailer (not_done_of_find found) finds⟩
    | entry cursor size entry =>
      obtain ⟨_, _, total, room, rfl, _⟩ := id finds
      exact ⟨_, _, next_of_entry found total room, .entry finds⟩

theorem next_not_panics (reader : Reader) : ¬Method.Panics Reader.next reader := by
  rintro ⟨_, _, panics⟩
  obtain ⟨_, _, returned, _⟩ := next_step reader
  cases returned with
  | ok same | err same =>
    rw [panics] at same
    cases same

theorem step_of_returns {r : Except Error Entry}
    (returned : Method.Returns Reader.next reader r after) : reader.Step r after := by
  obtain ⟨_, _, returned', step⟩ := next_step reader
  obtain ⟨rfl, rfl⟩ := returned.unique returned'
  exact step

/-! ### Any number of calls -/

/-- The entries among the results. -/
def returnedEntries (results : List (Except Error Entry)) : List Entry :=
  results.filterMap Except.toOption

@[simp]
theorem returnedEntries_ok (results : List (Except Error Entry)) (e : Entry) :
    returnedEntries (results ++ [.ok e]) = returnedEntries results ++ [e] := by
  simp [returnedEntries, Except.toOption]

@[simp]
theorem returnedEntries_error (results : List (Except Error Entry)) (error : Error) :
    returnedEntries (results ++ [.error error]) = returnedEntries results := by
  simp [returnedEntries, Except.toOption]

/-- **The invariant of a reader**, with what has been returned. -/
structure Reader.Bounded (archive : Bytes) (limits : ReaderLimits)
    (results : List (Except Error Entry)) (reader : Reader) : Prop where
  opened : reader.archive = archive
  limited : reader.limits = limits
  cursor : reader.cursor ≤ length archive
  entries : reader.entries = (returnedEntries results).length
  totalSize : reader.totalSize = ((returnedEntries results).map Entry.fileSize).sum
  maxEntries : reader.entries ≤ limits.maxEntries.toNat
  maxTotalSize : reader.totalSize ≤ limits.maxTotalSize.toNat

variable {archive : Bytes} {limits : ReaderLimits}

theorem Reader.Bounded.step {r : Except Error Entry}
    (bounded : reader.Bounded archive limits results) (step : reader.Step r after) :
    after.Bounded archive limits (results ++ [r]) := by
  obtain ⟨rfl, rfl, cursor, entries, total, maxEntries, maxTotal⟩ := bounded
  cases step with
  | error => exact ⟨rfl, rfl, cursor, by simpa, by simpa, maxEntries, maxTotal⟩
  | trailer going found =>
    exact ⟨rfl, rfl, found.2, by simpa, by simpa, maxEntries, maxTotal⟩
  | entry found =>
    obtain ⟨_, inside, size, room, _⟩ := found
    refine ⟨rfl, rfl, inside, ?_, ?_, room, size⟩
    · rw [returnedEntries_ok, List.length_append, ← entries]
      rfl
    · rw [returnedEntries_ok, List.map_append, List.sum_append, ← total]
      rfl

theorem bounded_of_opened (opened : newReaderWithLimits archive limits = .ok reader) :
    reader.Bounded archive limits [] := by
  unfold newReaderWithLimits at opened
  split at opened
  · cases opened
  · cases opened
    exact ⟨rfl, rfl, Nat.zero_le _, rfl, rfl, Nat.zero_le _, Nat.zero_le _⟩

theorem bounded_of_calls (opened : newReaderWithLimits archive limits = .ok reader)
    (calls : Method.Calls Reader.next reader results after) :
    after.Bounded archive limits results :=
  calls.invariant (fun results after => after.Bounded archive limits results)
    (bounded_of_opened opened)
    fun _ _ _ _ bounded returned => bounded.step (step_of_returns returned)

/-- Calls end: there is something in front of every entry that is returned. -/
theorem exists_error (room : ℕ) :
    ∀ {reader m : Reader} {results : List (Except Error Entry)},
      Method.Calls Reader.next reader results m → length m.archive - m.cursor ≤ room →
      ∃ (entries : List Entry) (error : Error) (after : Reader), entries.length ≤ room ∧
        Method.Calls Reader.next reader (results ++ entries.map .ok ++ [.error error]) after := by
  induction room with
  | zero =>
    intro reader m results calls small
    obtain ⟨result, after, returned, step⟩ := next_step m
    cases step with
    | error error | trailer =>
      exact ⟨[], _, _, Nat.le_refl 0, by simpa using calls.snoc returned⟩
    | entry found =>
      have behind := found.1
      have inside := found.2.1
      omega
  | succ room ih =>
    intro reader m results calls small
    obtain ⟨result, after, returned, step⟩ := next_step m
    cases step with
    | error error | trailer =>
      exact ⟨[], _, _, Nat.zero_le _, by simpa using calls.snoc returned⟩
    | @entry entry cursor found =>
      have behind := found.1
      obtain ⟨entries, error, last, few, calls⟩ := ih (calls.snoc returned) (by
        show length m.archive - cursor ≤ room
        omega)
      refine ⟨entry :: entries, error, last, Nat.succ_le_succ few, ?_⟩
      simpa using calls

/-- What holds of a reader after calls that returned `results`, and what holds of the next call. -/
structure Reader.Controlled (archive : Bytes) (limits : ReaderLimits)
    (results : List (Except Error Entry)) (reader : Reader) : Prop where
  cursor : reader.cursor ≤ length archive
  entries : reader.entries = (returnedEntries results).length
  maxEntries : (returnedEntries results).length ≤ limits.maxEntries.toNat
  totalSize : reader.totalSize = ((returnedEntries results).map Entry.fileSize).sum
  maxTotalSize : ((returnedEntries results).map Entry.fileSize).sum ≤ limits.maxTotalSize.toNat
  goesOn : ¬Method.Panics Reader.next reader
  advances : ∀ entry later, Method.Returns Reader.next reader (.ok entry) later →
    reader.cursor < later.cursor
  unchanged : ∀ error later, Method.Returns Reader.next reader (.error error) later →
    error ≠ .endOfArchive → later = reader
  ends : ∀ later, Method.Returns Reader.next reader (.error .endOfArchive) later →
    later = reader ∨ reader.done = false ∧ ∃ cursor, reader.cursor < cursor ∧
      later = { reader with cursor := cursor, done := true }

theorem Reader.Bounded.controlled (bounded : reader.Bounded archive limits results) :
    reader.Controlled archive limits results where
  cursor := bounded.cursor
  entries := bounded.entries
  maxEntries := by
    rw [← bounded.entries]
    exact bounded.maxEntries
  totalSize := bounded.totalSize
  maxTotalSize := by
    rw [← bounded.totalSize]
    exact bounded.maxTotalSize
  goesOn := next_not_panics reader
  advances entry later returned := by
    cases step_of_returns returned with
    | entry found => exact found.1
  unchanged error later returned different := by
    cases step_of_returns returned with
    | error => rfl
    | trailer => exact absurd rfl different
  ends later returned := by
    cases step_of_returns returned with
    | error => exact .inl rfl
    | trailer going found => exact .inr ⟨going, _, found.1, rfl⟩

/-- **Reading is safe, bounded and ends.** -/
theorem reader_runs {reader : Reader} (opened : newReaderWithLimits archive limits = .ok reader) :
    (∀ results after, Method.Calls Reader.next reader results after →
      after.Controlled archive limits results) ∧
    ∃ (entries : List Entry) (error : Error) (after : Reader), entries.length ≤ length archive ∧
      Method.Calls Reader.next reader (entries.map .ok ++ [.error error]) after := by
  refine ⟨fun results after calls => (bounded_of_calls opened calls).controlled, ?_⟩
  have bounded := bounded_of_opened opened
  have small : length reader.archive - reader.cursor ≤ length archive := by
    rw [bounded.opened]
    exact Nat.sub_le _ _
  obtain ⟨entries, error, after, few, calls⟩ := exists_error _ .none small
  exact ⟨entries, error, after, few, by simpa using calls⟩

/-- Two files with the contents `xyz`, without a trailer. -/
def twoFiles : Bytes where
  handle := some {
    data := ['a', 'b'].flatMap fun name =>
      (["070701", "00000001", "000081A4", "00000000", "00000000", "00000001", "00000000", "00000003",
        "00000000", "00000000", "00000000", "00000000", "00000002", "00000000"].flatMap
          String.toList ++ [name]).map (fun digit => UInt8.ofNat digit.toNat) ++ [0, 120, 121, 122, 0]
    short := by decide +kernel }

/-- The limits leave room for one of the two files. -/
theorem reader_runs_twoFiles : ∃ (reader after : Reader) (entry : Entry),
    newReaderWithLimits twoFiles ⟨4096, 67108864, 536870912, 1⟩ = .ok reader ∧
    Method.Calls Reader.next reader [.ok entry, .error .tooManyEntries] after ∧
    (after.cursor, after.totalSize, entry.fileSize) = (116, 3, 3) ∧
    after.Controlled twoFiles ⟨4096, 67108864, 536870912, 1⟩ [.ok entry, .error .tooManyEntries] ∧
    ∃ (entries : List Entry) (error : Error) (after : Reader), entries.length ≤ length twoFiles ∧
      Method.Calls Reader.next reader (entries.map .ok ++ [.error error]) after := by
  let reader : Reader := ⟨twoFiles, 0, 0, 0, ⟨4096, 67108864, 536870912, 1⟩, false⟩
  let after : Reader := { reader with cursor := 116, totalSize := 3, entries := 1 }
  let entry : Entry := ⟨.literal [97], 33188, 0, 0, 1, 0, 3, ⟨some ⟨[120, 121, 122], by decide⟩⟩⟩
  have first : Method.Returns Reader.next reader (.ok entry) after :=
    Method.attempt_eq_ok.mp (by decide +kernel)
  have second : Method.Returns Reader.next after (.error .tooManyEntries) after :=
    Method.attempt_eq_ok.mp (by decide +kernel)
  have calls := (Method.Calls.none.snoc first).snoc second
  obtain ⟨controlled, ends⟩ := reader_runs (show newReaderWithLimits twoFiles
    ⟨4096, 67108864, 536870912, 1⟩ = .ok reader from rfl)
  exact ⟨reader, after, entry, rfl, calls, rfl, controlled _ _ calls, ends⟩

end FoundationLang.Standard.Cpio
