/-
**What the package `std.cpio` never does.**
-/

import FoundationLang.Standard.CpioRoundTrip

namespace FoundationLang.Standard.Cpio

open Library Outcome List

/-! ### Refused calls -/

/-- The writers that a program can come to: one that was opened, and one that a call left when it
returned. -/
inductive Reached (options : WriterOptions) : Writer → Prop
  | opened {writer} : newWriterWithOptions options = .ok writer → Reached options writer
  | called {writer after} {call : Call} {result} :
      Reached options writer → Method.Returns call.run writer result after → Reached options after

/-- The builder is open, and has the limit of the archive. -/
def Bounded (writer : Writer) : Prop :=
  ∃ storage, writer.builder = ⟨some storage⟩ ∧ storage.limit = writer.limits.maxArchiveSize

section

variable {options : WriterOptions} {writer after : Writer} {name : Text} {data : Bytes}
  {mode links : ℕ}

/-- An entry that passes the checks is written, or the program stops. -/
theorem add_spec (bounded : Bounded writer) :
    (Writer.add name mode links data writer = .ok () after → Bounded after) ∧
      ∀ error, Writer.add name mode links data writer = .error (.err error) after →
        after = writer := by
  obtain ⟨storage, opened, limit⟩ := bounded
  unfold Writer.add
  cases checked : writer.checkEntry name data with
  | error =>
    refine ⟨fun added => (by cases added), fun error refused => ?_⟩
    cases refused
    rfl
  | ok =>
    obtain ⟨stored, storage', admitted, rfl, opened', room⟩ := admitted_of_checkEntry checked
    obtain rfl : storage' = storage := by
      rw [opened] at opened'
      exact Option.some.inj opened'.symm
    have size : (entryBytes writer.inode mode writer.uid.toNat writer.gid.toNat links
        writer.mtime.toNat name.bytes stored.data).length = 110 + (name.byteLen + 1) +
          padding4 (110 + (name.byteLen + 1)) + stored.data.length + padding4 stored.data.length := by
      have same : name.bytes.length = name.byteLen := rfl
      simp only [entryBytes, nameBytes, fill, length_append, length_headerBytes, length_replicate,
        length_singleton, same]
      omega
    have written := appends_writeEntry writer.inode mode writer.uid.toNat writer.gid.toNat links
      writer.mtime.toNat name admitted.held storage'
    rw [opened]
    dsimp only
    rcases written with ⟨final, same, -, kept⟩ | ⟨_, _, same, fits⟩
    · rw [same]
      split_ifs
      · refine ⟨fun added => ?_, fun error refused => (by cases refused)⟩
        cases added
        exact ⟨final, rfl, kept.trans limit⟩
      · exact ⟨fun added => (by cases added), fun error refused => (by cases refused)⟩
    · obtain ⟨_, rfl⟩ := fits (by rw [size, limit]; exact room)
      rw [same]
      exact ⟨fun added => (by cases added), fun error refused => (by cases refused)⟩

theorem run_spec (bounded : Bounded writer) (call : Call) :
    (call.run writer = .ok () after → Bounded after) ∧
      ∀ error, call.run writer = .error (.err error) after → after = writer := by
  have permitted : ∀ (permissions : UInt32) (name : Text) (mode links : ℕ) (data : Bytes),
      ((if permissions > 511 then throw (.err .invalidPermissions)
          else Writer.add name mode links data : Method Writer Error Unit) writer = .ok () after →
        Bounded after) ∧
      ∀ error, (if permissions > 511 then throw (.err .invalidPermissions)
          else Writer.add name mode links data : Method Writer Error Unit) writer =
        .error (.err error) after → after = writer := by
    intro permissions name mode links data
    split_ifs
    · refine ⟨fun added => (by cases added), fun error refused => ?_⟩
      cases refused
      rfl
    · exact add_spec bounded
  cases call with
  | addDir name permissions | addFile name permissions => exact permitted permissions name _ _ _

theorem Reached.bounded (reached : Reached options writer) : Bounded writer := by
  induction reached with
  | opened returned =>
    unfold newWriterWithOptions at returned
    split at returned
    · cases returned
    · cases returned
      exact ⟨_, rfl, rfl⟩
  | called _ returned ih =>
    cases returned with
    | ok same => exact (run_spec ih _).1 same
    | err same => exact (run_spec ih _).2 _ same ▸ ih

/-- **A call that returns an error changes nothing**: the bytes of the builder, the next inode, the
number of entries and the total size are as before. -/
theorem refused_unchanged {error : Error} (reached : Reached options writer) (call : Call)
    (refused : call.run writer = .error (.err error) after) : after = writer :=
  (run_spec reached.bounded call).2 _ refused

/-- Room for one file and not for two. -/
def smallOptions : WriterOptions :=
  { defaultWriterOptions with limits := { defaultWriterOptions.limits with maxArchiveSize := 200 } }

/-- A writer that holds a file refuses a second one by its last limit, the one of the archive. -/
theorem refused_unchanged_full : ∃ opened writer after,
    newWriterWithOptions smallOptions = .ok opened ∧
    Method.Returns (Call.addFile (.literal [97]) 420 (fromText (.literal [120]))).run opened (.ok ())
      writer ∧ (writer.builder.length, writer.inode, writer.entries) = (.ok 116, 2, 1) ∧
    (Call.addFile (.literal [98]) 420 (fromText (.literal [121]))).run writer
      = .error (.err .archiveTooLarge) after ∧ after = writer := by
  obtain ⟨opened, opens⟩ : ∃ opened, newWriterWithOptions smallOptions = .ok opened := ⟨_, rfl⟩
  have calls : (do
      let opened ← newWriterWithOptions smallOptions
      let (first, writer) ← ((Call.addFile (.literal [97]) 420
        (fromText (.literal [120]))).run.attempt opened).mapError Stop.panic
      let (second, _) ← ((Call.addFile (.literal [98]) 420
        (fromText (.literal [121]))).run.attempt writer).mapError Stop.panic
      .ok (first, writer.builder.length, writer.inode, writer.entries, second) : Outcome Error _)
        = .ok (.ok (), .ok 116, 2, 1, .error .archiveTooLarge) := by
    decide +kernel
  rw [opens, ok_bind] at calls
  cases first : (Call.addFile (.literal [97]) 420 (fromText (.literal [120]))).run.attempt opened with
  | error =>
    rw [first] at calls
    cases calls
  | ok added =>
    obtain ⟨result, writer⟩ := added
    rw [first] at calls
    cases second : (Call.addFile (.literal [98]) 420
        (fromText (.literal [121]))).run.attempt writer with
    | error =>
      simp only [Except.mapError, ok_bind, second] at calls
      cases calls
    | ok refused =>
      obtain ⟨result', after⟩ := refused
      simp only [Except.mapError, ok_bind, second] at calls
      simp only [Except.ok.injEq, Prod.mk.injEq] at calls
      obtain ⟨rfl, size, inode, entries, rfl⟩ := calls
      have added := Method.attempt_eq_ok.mp first
      cases Method.attempt_eq_ok.mp second with
      | err refused =>
        exact ⟨opened, writer, after, opens, added, by rw [size, inode, entries], refused,
          refused_unchanged (.called (.opened opens) added) _ refused⟩

end

/-! ### Unpacking -/

/-- What `UnpackToDir` asks of the root of its destination. -/
inductive Write
  | createDirectory (name : Text)
  | writeFile (name : Text) (data : Bytes) (permissions : ℕ)

/-- The name that is written to. -/
def Write.name : Write → Text
  | createDirectory name | writeFile name _ _ => name

/-- What the file system answers, with an error or none: to `OpenRoot`, to a write behind other
writes, and to `Close`. -/
structure Root (E : Type) where
  openRoot : Option E
  write : List Write → Write → Option E
  close : List Write → Option E

/-- `Error`, with what only `UnpackToDir` returns. -/
inductive UnpackError (E : Type)
  | reader (error : Error)
  | filesystem (error : E)
  | unsupportedType

variable {E : Type}

/-- The answer of the file system. -/
def answered : Option E → Outcome (UnpackError E) Unit
  | none => .ok ()
  | some error => err (.filesystem error)

/-- The loop of `UnpackToDir`, as far as a number of rounds; the writes come out with the result. -/
def unpackLoop (root : Root E) :
    ℕ → Reader → List Write → List Write × Outcome (UnpackError E) Unit
  | 0, _, written => (written, .ok ())
  | rounds + 1, reader, written =>
    let after (next : Write) (reader : Reader) :=
      match root.write written next with
      | some error => (written ++ [next], err (.filesystem error))
      | none => unpackLoop root rounds reader (written ++ [next])
    match Reader.next reader with
    | .ok entry reader =>
      if !validName entry.name then (written, err (.reader .invalidName))
      else if entry.mode / 4096 % 16 = 4 then after (.createDirectory entry.name) reader
      else if entry.mode / 4096 % 16 = 8 then
        after (.writeFile entry.name entry.data (entry.mode % 512)) reader
      else (written, err .unsupportedType)
    | .error (.err .endOfArchive) _ => (written, answered (root.close written))
    | .error (.err error) _ => (written, err (.reader error))
    | .error (.panic reason) _ => (written, panic reason)

/-- `UnpackToDir`; `names_stay_inside` — it writes below its destination only. -/
def unpackToDir (root : Root E) (rounds : ℕ) (archive : Bytes) :
    List Write × Outcome (UnpackError E) Unit :=
  match newReaderWithLimits archive defaultReaderLimits with
  | .error (.err error) => ([], err (.reader error))
  | .error (.panic reason) => ([], panic reason)
  | .ok reader =>
    match root.openRoot with
    | some error => ([], err (.filesystem error))
    | none => unpackLoop root rounds reader []

theorem unpackLoop_names (root : Root E) {k : ℕ} {r : Reader} {out : List Write}
    (named : ∀ write ∈ out, validName write.name = true) :
    ∀ write ∈ (unpackLoop root k r out).1, validName write.name = true := by
  induction k generalizing r out with
  | zero => exact named
  | succ k ih =>
    have step : ∀ (next : Write) (r : Reader), validName next.name = true →
        ∀ write ∈ (match root.write out next with
          | some error => (out ++ [next], err (UnpackError.filesystem error))
          | none => unpackLoop root k r (out ++ [next])).1,
          validName write.name = true := by
      intro next r valid
      have named' : ∀ write ∈ out ++ [next], validName write.name = true := by
        simpa [or_imp, forall_and] using ⟨named, valid⟩
      cases root.write out next with
      | some => exact named'
      | none => exact ih named'
    unfold unpackLoop
    cases Reader.next r with
    | ok entry r =>
      dsimp only
      split_ifs with refused
      · exact named
      all_goals rw [Bool.not_eq_true', Bool.not_eq_false] at refused
      · exact step (.createDirectory entry.name) r refused
      · exact step (.writeFile entry.name entry.data _) r refused
      · exact named
    | error =>
      split <;> first | exact named | contradiction

/-- A segment of a path, in a directory. -/
def descend (directory : List (List UInt8)) (part : List UInt8) : List (List UInt8) :=
  if part = [] ∨ part = [46] then directory
  else if part = [46, 46] then directory.dropLast
  else directory ++ [part]

theorem descend_proper {parts : List (List UInt8)}
    (proper : ∀ part ∈ parts, part ≠ [] ∧ part ≠ [46] ∧ part ≠ [46, 46])
    (dir : List (List UInt8)) : parts.foldl descend dir = dir ++ parts := by
  induction parts generalizing dir with
  | nil => exact (append_nil dir).symm
  | cons part parts ih =>
    obtain ⟨⟨filled, noDot, noDots⟩, others⟩ := forall_mem_cons.mp proper
    rw [foldl_cons, ih others, descend, if_neg (not_or.mpr ⟨filled, noDot⟩), if_neg noDots]
    simp

/-- **Names stay inside**: the names that are accepted are the proper ones, and whatever archive is
unpacked, every path that is written leads below the destination. -/
theorem names_stay_inside :
    (∀ value, validName value = true ↔ ProperName value.bytes) ∧
      ∀ (E : Type) (root : Root E) (rounds : ℕ) (archive : Bytes),
        ∀ write ∈ (unpackToDir root rounds archive).1, ∀ destination, ∃ below ≠ [],
          (write.name.bytes.splitOn 47).foldl descend destination = destination ++ below := by
  refine ⟨validName_iff, fun E root rounds archive write mem destination => ?_⟩
  have valid : validName write.name = true := by
    unfold unpackToDir at mem
    split at mem
    · cases mem
    · cases mem
    · split at mem
      · cases mem
      · exact unpackLoop_names root (by simp) write mem
  exact ⟨_, splitOn_ne_nil 47 _,
    descend_proper ((validName_iff write.name).mp valid).1 destination⟩

end FoundationLang.Standard.Cpio
