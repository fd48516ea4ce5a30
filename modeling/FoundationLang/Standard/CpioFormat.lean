/-
**The newc format, written and read.**
-/

import FoundationLang.Standard.CpioLimits
import FoundationLang.Standard.CpioWriter

namespace FoundationLang.Standard.Cpio

open Library Outcome List

/-! ### The format -/

/-- A hexadecimal digit in upper case. -/
def hexCharacter (digit : ℕ) : UInt8 :=
  UInt8.ofNat (if digit < 10 then digit + 48 else digit + 55)

/-- The last `digits` hexadecimal digits of a number. -/
def hexText (value : ℕ) : ℕ → List UInt8
  | 0 => []
  | digits + 1 => hexCharacter (value / 16 ^ digits % 16) :: hexText value digits

/-- The characters in front of a header, `070701`. -/
def magic : List UInt8 :=
  [48, 55, 48, 55, 48, 49]

/-- The bytes of a header. -/
def headerBytes (inode mode uid gid links mtime fileSize nameSize : ℕ) : List UInt8 :=
  magic ++ ([inode, mode, uid, gid, links, mtime, fileSize, 0, 0, 0, 0, nameSize, 0].map
    fun field => hexText field 8).flatten

/-- Zero bytes up to a multiple of four. -/
def fill (size : ℕ) : List UInt8 :=
  List.replicate (padding4 size) 0

/-- A name with its terminator, filled up behind the header. -/
def nameBytes (name : List UInt8) : List UInt8 :=
  name ++ [0] ++ fill (110 + (name.length + 1))

/-- The bytes of an entry. -/
def entryBytes (inode mode uid gid links mtime : ℕ) (name data : List UInt8) : List UInt8 :=
  headerBytes inode mode uid gid links mtime data.length (name.length + 1) ++ nameBytes name ++
    (data ++ fill data.length)

theorem length_hexText (v digits : ℕ) : (hexText v digits).length = digits := by
  induction digits with
  | zero => rfl
  | succ digits ih => rw [hexText, length_cons, ih]

theorem length_headerBytes (inode mode uid gid links mtime fileSize nameSize : ℕ) :
    (headerBytes inode mode uid gid links mtime fileSize nameSize).length = 110 := by
  simp [headerBytes, magic, length_hexText]

theorem add_padding4 (value : ℕ) : 4 ∣ value + padding4 value := by
  unfold padding4
  split_ifs <;> omega

theorem padding4_add {front : ℕ} (aligned : 4 ∣ front) (value : ℕ) :
    padding4 (front + value) = padding4 value := by
  obtain ⟨_, rfl⟩ := aligned
  unfold padding4
  rw [Nat.mul_add_mod]

theorem dvd_length_entryBytes (inode mode uid gid links mtime : ℕ) (name data : List UInt8) :
    4 ∣ (entryBytes inode mode uid gid links mtime name data).length := by
  have first := add_padding4 (110 + (name.length + 1))
  have second := add_padding4 data.length
  simp only [entryBytes, nameBytes, fill, length_append, length_headerBytes,
    length_replicate, length_singleton]
  omega

/-! ### Writing -/

/-- When the call returns, these bytes have been appended. -/
def Writes (call : Method Builder Error Unit) (bytes : List UInt8) : Prop :=
  ∀ storage after, call ⟨some storage⟩ = .ok () after →
    ∃ storage' : BuilderStorage, after = ⟨some storage'⟩ ∧ storage'.data = storage.data ++ bytes

/-- The call appends these bytes or stops; where they fit, nothing but a panic stops it. -/
def Appends (call : Method Builder Error Unit) (bytes : List UInt8) : Prop :=
  ∀ storage : BuilderStorage,
    (∃ storage' : BuilderStorage, call ⟨some storage⟩ = .ok () ⟨some storage'⟩ ∧
      storage'.data = storage.data ++ bytes ∧ storage'.limit = storage.limit) ∨
    ∃ stop after, call ⟨some storage⟩ = .error stop after ∧
      (storage.data.length + bytes.length ≤ storage.limit.toNat → ∃ reason, stop = .panic reason)

theorem Appends.writes {call : Method Builder Error Unit} {bytes : List UInt8}
    (appends : Appends call bytes) : Writes call bytes := by
  intro storage after returned
  rcases appends storage with ⟨storage', same, appended, -⟩ | ⟨_, _, same, -⟩
  · rw [same] at returned
    cases returned
    exact ⟨storage', rfl, appended⟩
  · cases same.symm.trans returned

theorem Writes.next {α : Type} {x : Method Builder Error Unit} {bytes : List UInt8}
    {y : Method Builder Error α} (writes : Writes x bytes) {storage : BuilderStorage}
    {v : α} {t : Builder} (returned : (do x; y) ⟨some storage⟩ = .ok v t) :
    ∃ storage' : BuilderStorage, y ⟨some storage'⟩ = .ok v t ∧
      storage'.data = storage.data ++ bytes := by
  change EStateM.bind x (fun _ => y) ⟨some storage⟩ = .ok v t at returned
  unfold EStateM.bind at returned
  split at returned
  · rename_i _ m returned'
    obtain ⟨storage', rfl, appended⟩ := writes storage m returned'
    exact ⟨storage', returned, appended⟩
  · cases returned

theorem appends_pure : Appends (pure ()) [] :=
  fun storage => .inl ⟨storage, rfl, (append_nil _).symm, rfl⟩

theorem Appends.seq {x y : Method Builder Error Unit} {bytes bytes' : List UInt8}
    (appends : Appends x bytes) (appends' : Appends y bytes') :
    Appends (do x; y) (bytes ++ bytes') := by
  intro storage
  rw [length_append]
  rcases appends storage with ⟨m, same, appended, kept⟩ | ⟨stop, after, same, fits⟩
  · have next : (do x; y) ⟨some storage⟩ = y ⟨some m⟩ := Method.bind_ok same
    rw [next]
    rcases appends' m with ⟨storage', same', appended', kept'⟩ | ⟨stop, after, same', fits⟩
    · exact .inl ⟨storage', same', by rw [appended', appended, append_assoc], kept'.trans kept⟩
    · refine .inr ⟨stop, after, same', fun room => fits ?_⟩
      rw [appended, kept, length_append]
      omega
  · refine .inr ⟨stop, after, ?_, fun room => fits (by omega)⟩
    change EStateM.bind x (fun _ => y) ⟨some storage⟩ = _
    unfold EStateM.bind
    rw [same]

theorem appends_append (bytes : List UInt8) :
    Appends ((Builder.append bytes).mapErr byteWriteError) bytes := by
  intro storage
  have appends : Builder.append bytes ⟨some storage⟩ =
    (if storage.data.length + bytes.length > storage.limit.toNat then throw (.err .tooLarge)
    else if room : (storage.data ++ bytes).length < 2 ^ 63 then
      set (⟨some ⟨storage.data ++ bytes, storage.limit, room⟩⟩ : Builder)
    else throw (.panic (.message "allocation failed")) : Method Builder BytesError Unit)
      ⟨some storage⟩ := rfl
  unfold Method.mapErr
  rw [appends]
  split_ifs with large room
  · exact .inr ⟨.err .archiveTooLarge, _, rfl, fun fits => absurd fits (Nat.not_le_of_lt large)⟩
  · exact .inl ⟨_, rfl, rfl, rfl⟩
  · exact .inr ⟨_, _, rfl, fun _ => ⟨_, rfl⟩⟩

theorem appends_writeByte {v : ℕ} (small : v < 256) :
    Appends (writeByte v) [UInt8.ofNat v] := by
  intro storage
  have same : writeByte v ⟨some storage⟩ =
      (Builder.append [UInt8.ofNat v]).mapErr byteWriteError ⟨some storage⟩ := by
    have noError : ¬v > 255 := by omega
    unfold writeByte Method.mapErr
    have step : Builder.writeByte v ⟨some storage⟩ =
        Builder.append [UInt8.ofNat v] ⟨some storage⟩ := by
      show (if v > 255 then throw (.err .outOfBounds) else Builder.append [UInt8.ofNat v] :
        Method Builder BytesError Unit) ⟨some storage⟩ = _
      rw [if_neg noError]
    rw [step]
  rw [same]
  exact appends_append _ storage

theorem appends_writeBytes {v : Bytes} {stored : Storage} (held : v.handle = some stored) :
    Appends (writeBytes v) stored.data := by
  unfold writeBytes Builder.write
  rw [held]
  exact appends_append stored.data

theorem appends_writeText (v : Text) : Appends (writeText v) v.bytes := by
  have held : (fromText v).handle = some ⟨v.bytes, v.short⟩ := rfl
  exact appends_writeBytes held

theorem appends_writeZeros (n : ℕ) : Appends (writeZeros n) (List.replicate n 0) := by
  induction n with
  | zero => exact appends_pure
  | succ n ih => exact (appends_writeByte (by decide)).seq ih

theorem appends_writePadding (size : ℕ) : Appends (writePadding size) (fill size) :=
  appends_writeZeros (padding4 size)

theorem appends_writeHexDigits (v ds : ℕ) :
    Appends (writeHexDigits v (16 ^ ds / 16) ds) (hexText v ds) := by
  induction ds with
  | zero => exact appends_pure
  | succ ds ih =>
    rw [Nat.pow_succ, Nat.mul_div_cancel _ (by decide)]
    have small : (if v / 16 ^ ds % 16 < 10 then v / 16 ^ ds % 16 + 48
        else v / 16 ^ ds % 16 + 55) < 256 := by
      split_ifs <;> omega
    exact (appends_writeByte small).seq ih

theorem appends_writeHex8 (v : ℕ) : Appends (writeHex8 v) (hexText v 8) :=
  appends_writeHexDigits v 8

theorem appends_writeHeader (inode mode uid gid links mtime fileSize nameSize : ℕ) :
    Appends (writeHeader inode mode uid gid links mtime fileSize nameSize)
      (headerBytes inode mode uid gid links mtime fileSize nameSize) := by
  have fs : ∀ v {rest : Method Builder Error Unit} {vs : List ℕ},
      Appends rest (vs.map fun field => hexText field 8).flatten →
      Appends (do writeHex8 v; rest) ((v :: vs).map fun field => hexText field 8).flatten :=
    fun v _ _ appends => (appends_writeHex8 v).seq appends
  refine (appends_writeText _).seq ?_
  refine fs inode (fs mode (fs uid (fs gid (fs links (fs mtime ?_)))))
  refine fs fileSize (fs 0 (fs 0 (fs 0 (fs 0 (fs nameSize ?_)))))
  simpa using appends_writeHex8 0

/-- **The writer appends the format.** -/
theorem appends_writeEntry (inode mode uid gid links mtime : ℕ) (name : Text) {data : Bytes}
    {stored : Storage} (held : data.handle = some stored) :
    Appends (writeEntry inode mode uid gid links mtime stored.data.length (name.byteLen + 1) name data)
      (entryBytes inode mode uid gid links mtime name.bytes stored.data) := by
  have terminator : Appends (writeByte 0) [0] := appends_writeByte (by decide)
  have header := appends_writeHeader inode mode uid gid links mtime stored.data.length
    (name.byteLen + 1)
  have appends := header.seq ((appends_writeText name).seq (terminator.seq
    ((appends_writePadding (110 + (name.byteLen + 1))).seq ((appends_writeBytes held).seq
      (appends_writePadding stored.data.length)))))
  have same : name.bytes.length = name.byteLen := rfl
  unfold entryBytes nameBytes writeEntry
  rw [same]
  simpa only [append_assoc] using appends

/-! ### Reading -/

theorem hexDigit_hexCharacter {digit : ℕ} (small : digit < 16) :
    hexDigit (hexCharacter digit).toNat = .ok digit := by
  have all : ∀ digit < 16, hexDigit (hexCharacter digit).toNat = .ok digit := by
    decide +kernel
  exact all digit small

section

variable {archive : Bytes} {stored : Storage} {i : ℕ}

section

variable (held : archive.handle = some stored)
include held

theorem atIndex_eq {b : UInt8} {bytes : List UInt8}
    (there : At stored.data i (b :: bytes)) :
    archive.atIndex i = .ok b.toNat := by
  unfold Bytes.atIndex
  rw [held]
  dsimp only
  rw [there.getElem?]

theorem readHexDigits_eq {value start : ℕ}
    (small : value < 2 ^ 32) (digits : ℕ) :
    ∀ offset, At stored.data (start + offset) (hexText value digits) →
      readHexDigits archive start offset (value / 16 ^ digits) digits = .ok value := by
  induction digits with
  | zero =>
    intro offset _
    rw [Nat.pow_zero, Nat.div_one]
    rfl
  | succ digits ih =>
    intro offset there
    have inside := there.le
    have short := stored.short
    have next : value / 16 ^ (digits + 1) * 16 + value / 16 ^ digits % 16 = value / 16 ^ digits := by
      rw [Nat.pow_succ, ← Nat.div_div_eq_div_mul]
      omega
    have least : value / 16 ^ digits ≤ value := Nat.div_le_self _ _
    unfold readHexDigits
    rw [checked_bind (by omega), atIndex_eq held there, mapErr_ok, ok_bind,
      hexDigit_hexCharacter (Nat.mod_lt _ (by decide)), ok_bind, next, checked_bind (by omega)]
    exact ih (offset + 1) there.tail

theorem readHex8_eq {value : ℕ} (small : value < 2 ^ 32)
    (there : At stored.data i (hexText value 8)) : readHex8 archive i = .ok value := by
  have start : value / 16 ^ 8 = 0 := Nat.div_eq_of_lt small
  have ds := readHexDigits_eq held small 8 0 there
  rw [start] at ds
  unfold readHex8
  rw [ds, ok_bind, if_pos small]

theorem matchesBytes_eq {start : ℕ} (bytes : List UInt8) :
    ∀ offset, At stored.data (start + offset) bytes →
      matchesBytes archive start offset (bytes.map UInt8.toNat) = .ok true := by
  induction bytes with
  | nil =>
    intro offset _
    rfl
  | cons b bytes ih =>
    intro offset there
    have inside := there.le
    have short := stored.short
    rw [length_cons] at inside
    have want : expectedByte archive (start + offset) b.toNat = true := by
      unfold expectedByte
      rw [atIndex_eq held there]
      simp
    rw [map_cons]
    unfold matchesBytes
    rw [checked_bind (by omega), if_pos want]
    exact ih (offset + 1) there.tail

theorem matchesMagic_eq (there : At stored.data i magic) :
    matchesMagic archive i = .ok true :=
  matchesBytes_eq held magic 0 there

/-- **The reader reads the header that the writer has written.** -/
theorem readHeader_eq
    {inode mode uid gid links mtime fileSize nameSize : ℕ}
    (there : At stored.data i
      (headerBytes inode mode uid gid links mtime fileSize nameSize))
    (modeSmall : mode < 2 ^ 32) (uidSmall : uid < 2 ^ 32) (gidSmall : gid < 2 ^ 32)
    (linksSmall : links < 2 ^ 32) (mtimeSmall : mtime < 2 ^ 32) (fileSmall : fileSize < 2 ^ 32)
    (nameSmall : nameSize < 2 ^ 32) :
    readHeader archive i = .ok {
      mode := mode
      uid := uid
      gid := gid
      nlink := links
      mtime := mtime
      fileSize := fileSize
      nameSize := nameSize } := by
  have inside := there.le
  have short := stored.short
  rw [length_headerBytes] at inside
  -- The fields are behind the magic, eight characters each.
  have fs := there.right
  have field : ∀ {value : ℕ} {vs : List ℕ} {i : ℕ},
      At stored.data i ((value :: vs).map fun field => hexText field 8).flatten →
      At stored.data i (hexText value 8) ∧
        At stored.data (i + 8) (vs.map fun field => hexText field 8).flatten := by
    intro value vs i there
    rw [map_cons, flatten_cons] at there
    have next := there.right
    rw [length_hexText] at next
    exact ⟨there.left, next⟩
  obtain ⟨_, fs⟩ := field fs
  obtain ⟨modeAt, fs⟩ := field fs
  obtain ⟨uidAt, fs⟩ := field fs
  obtain ⟨gidAt, fs⟩ := field fs
  obtain ⟨linksAt, fs⟩ := field fs
  obtain ⟨mtimeAt, fs⟩ := field fs
  obtain ⟨fileAt, fs⟩ := field fs
  obtain ⟨_, fs⟩ := field fs
  obtain ⟨_, fs⟩ := field fs
  obtain ⟨_, fs⟩ := field fs
  obtain ⟨_, fs⟩ := field fs
  obtain ⟨nameAt, _⟩ := field fs
  have read : ∀ offset {value : ℕ}, value < 2 ^ 32 →
      At stored.data (i + offset) (hexText value 8) →
      readHex8 archive (i + offset) = .ok value :=
    fun offset _ small there => readHex8_eq held small there
  unfold readHeader
  rw [checked_bind (by omega), read 14 modeSmall modeAt, ok_bind, checked_bind (by omega),
    read 22 uidSmall uidAt, ok_bind, checked_bind (by omega), read 30 gidSmall gidAt, ok_bind,
    checked_bind (by omega), read 38 linksSmall linksAt, ok_bind, checked_bind (by omega),
    read 46 mtimeSmall mtimeAt, ok_bind, checked_bind (by omega), read 54 fileSmall fileAt, ok_bind,
    checked_bind (by omega), read 94 nameSmall nameAt, ok_bind]

theorem scanName_eq (name : List UInt8)
    (nonzero : ∀ b ∈ name, b ≠ 0) :
    ∀ i, At stored.data i name → scanName archive i name.length = .ok () := by
  induction name with
  | nil =>
    intro i _
    rfl
  | cons b name ih =>
    intro i there
    have ne : b.toNat ≠ 0 := by
      intro zero
      exact nonzero b mem_cons_self (UInt8.toNat_inj.mp zero)
    rw [length_cons]
    unfold scanName
    rw [atIndex_eq held there, mapErr_ok, ok_bind, if_neg ne]
    exact ih (fun y mem => nonzero y (mem_cons_of_mem _ mem)) _ there.tail

theorem slice_eq {bytes : List UInt8}
    (there : At stored.data i bytes) : ∃ part : Storage,
      archive.slice i (i + bytes.length) = .ok ⟨some part⟩ ∧ part.data = bytes := by
  have inside := there.le
  unfold Bytes.slice
  rw [held]
  dsimp only
  rw [if_neg (by omega)]
  exact ⟨_, rfl, there.slice⟩

end

theorem text_eq {v : Bytes} {part : Storage} (name : Text) (held : v.handle = some part)
    (same : part.data = name.bytes) : v.text = .ok name := by
  unfold Bytes.text
  rw [held]
  dsimp only
  rw [dif_pos (by rw [same]; exact name.valid)]
  exact congrArg _ (Text.ext same)

theorem readName_eq (held : archive.handle = some stored) (name : Text)
    (nonzero : ∀ b ∈ name.bytes, b ≠ 0) (nonempty : name.bytes ≠ [])
    (there : At stored.data i (nameBytes name.bytes)) :
    readName archive i (i + (name.byteLen + 1)) = .ok name := by
  have nameAt := there.left.left
  have zeroAt := there.left.right
  have last : i + (name.byteLen + 1) - 1 = i + name.bytes.length := by
    show i + (name.bytes.length + 1) - 1 = i + name.bytes.length
    omega
  obtain ⟨part, sliced, same⟩ := slice_eq held nameAt
  have notEmpty : ¬name.isEmpty = true := by
    simpa [Text.isEmpty, Text.byteLen] using nonempty
  unfold readName
  rw [checkedSub_bind (by omega), last, atIndex_eq held zeroAt, mapErr_ok, ok_bind,
    if_neg (by simp), Nat.add_sub_cancel_left, scanName_eq held name.bytes nonzero _ nameAt, ok_bind,
    sliced, mapErr_ok, ok_bind, text_eq name rfl same, mapErr_ok, ok_bind, if_neg notEmpty]

theorem aligned4_eq {v : ℕ} (small : v + 3 < 2 ^ 64) :
    aligned4 v = .ok (v + padding4 v) := by
  have padded := padding4_lt v
  exact checked_eq (by omega)

end

end FoundationLang.Standard.Cpio
