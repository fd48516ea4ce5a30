/-
**The files of a package.**

What the loops of `inspectPackageSource` collect, without the loops.
-/

import FoundationLang.Library.Sequences
import FoundationLang.Package.Source

namespace FoundationLang.Package

open Std Library List

/-! ### Files that fit -/

/-- The checks on one file. -/
def FitsFile (record : SourceRecord) (file : PackageSourceFile) : Prop :=
  portablePath file.path = true ∧ folded file.path ∉ record.foldedPaths
    ∧ file.size ≤ maxSourceFileBytes ∧ record.totalBytes + file.size ≤ maxSourceBytes
    ∧ record.files.length ≠ maxSourceFiles

/-- Files that pass, one after the other. -/
def SourceRecord.pushAll (record : SourceRecord) (files : List PackageSourceFile) : SourceRecord :=
  files.foldl SourceRecord.push record

/-- The checks on files, one after the other. -/
def Fits (record : SourceRecord) : List PackageSourceFile → Prop
  | [] => True
  | file :: rest => FitsFile record file ∧ Fits (record.push file) rest

theorem fits_append (r : SourceRecord) (one two : List PackageSourceFile) :
    Fits r (one ++ two) ↔ Fits r one ∧ Fits (r.pushAll one) two := by
  induction one generalizing r with
  | nil => exact (iff_of_eq (true_and _)).symm
  | cons file rest ih =>
    show _ ∧ Fits _ (rest ++ two) ↔ (_ ∧ Fits _ rest) ∧ Fits ((r.push file).pushAll rest) two
    rw [ih, and_assoc]

theorem pushAll_append (r : SourceRecord) (one two : List PackageSourceFile) :
    r.pushAll (one ++ two) = (r.pushAll one).pushAll two :=
  foldl_append

theorem pushAll_eq (r : SourceRecord) (files : List PackageSourceFile) :
    r.pushAll files
      = { files := r.files ++ files
          totalBytes := r.totalBytes + (files.map (·.size)).sum
          foldedPaths := (files.map (folded ·.path)).reverse ++ r.foldedPaths } := by
  induction files generalizing r with
  | nil => simp [SourceRecord.pushAll]
  | cons file rest ih =>
    show (r.push file).pushAll rest = _
    rw [ih]
    simp [SourceRecord.push, Nat.add_assoc]

/-- The sizes that a record may have. -/
def SourceRecord.Bounded (record : SourceRecord) : Prop :=
  record.totalBytes ≤ maxSourceBytes ∧ record.files.length ≤ maxSourceFiles

theorem fits_iff {r : SourceRecord} (bounded : r.Bounded) (files : List PackageSourceFile) :
    Fits r files
      ↔ (∀ file ∈ files, portablePath file.path = true ∧ file.size ≤ maxSourceFileBytes)
        ∧ (files.map (folded ·.path)).Nodup
        ∧ (∀ file ∈ files, folded file.path ∉ r.foldedPaths)
        ∧ r.totalBytes + (files.map (·.size)).sum ≤ maxSourceBytes
        ∧ r.files.length + files.length ≤ maxSourceFiles := by
  induction files generalizing r with
  | nil => simpa [Fits, SourceRecord.Bounded] using bounded
  | cons file rest ih =>
    have step : (r.push file).Bounded
        ↔ r.totalBytes + file.size ≤ maxSourceBytes ∧ r.files.length + 1 ≤ maxSourceFiles := by
      simp [SourceRecord.Bounded, SourceRecord.push]
    constructor
    · rintro ⟨⟨portable, fresh, small, total, room⟩, later⟩
      have one : r.files.length + 1 ≤ maxSourceFiles := by
        have := bounded.2
        omega
      obtain ⟨each, spread, apart, sum, count⟩ := (ih (step.mpr ⟨total, one⟩)).mp later
      simp only [SourceRecord.push, mem_cons, not_or, length_append, length_singleton]
        at apart sum count
      refine ⟨?_, ?_, ?_, ?_, ?_⟩
      · exact forall_mem_cons.mpr ⟨⟨portable, small⟩, each⟩
      · rw [map_cons, nodup_cons]
        refine ⟨fun mem => ?_, spread⟩
        obtain ⟨y, present, same⟩ := mem_map.mp mem
        exact (apart y present).1 same
      · exact forall_mem_cons.mpr ⟨fresh, fun y mem => (apart y mem).2⟩
      · rw [map_cons, sum_cons]
        omega
      · rw [length_cons]
        omega
    · rintro ⟨each, spread, apart, sum, count⟩
      rw [map_cons, sum_cons] at sum
      rw [length_cons] at count
      rw [map_cons, nodup_cons] at spread
      obtain ⟨⟨portable, small⟩, others⟩ := forall_mem_cons.mp each
      obtain ⟨fresh, separate⟩ := forall_mem_cons.mp apart
      refine ⟨⟨portable, fresh, small, by omega, by omega⟩, ?_⟩
      refine (ih (step.mpr ⟨by omega, by omega⟩)).mpr ⟨others, spread.2, ?_, ?_, ?_⟩
      · intro y mem
        rw [SourceRecord.push, mem_cons, not_or]
        refine ⟨fun same => spread.1 ?_, separate y mem⟩
        exact mem_map.mpr ⟨y, mem, same⟩
      · simp only [SourceRecord.push]
        omega
      · simp only [SourceRecord.push, length_append, length_singleton]
        omega

theorem bounded_empty : ({} : SourceRecord).Bounded := by
  exact ⟨Nat.zero_le _, Nat.zero_le _⟩

theorem Fits.bounded {r : SourceRecord} {files : List PackageSourceFile}
    (bounded : r.Bounded) (fits : Fits r files) : (r.pushAll files).Bounded := by
  obtain ⟨_, _, _, sum, count⟩ := (fits_iff bounded files).mp fits
  rw [pushAll_eq]
  exact ⟨sum, by simpa using count⟩

/-- **Files that fit still fit in another order.** -/
theorem Fits.perm {files others : List PackageSourceFile} (fits : Fits {} files)
    (order : files.Perm others) : Fits {} others := by
  obtain ⟨each, spread, apart, _, _⟩ := (fits_iff bounded_empty files).mp fits
  refine (fits_iff bounded_empty others).mpr ⟨?_, ?_, ?_, ?_, ?_⟩
  · exact fun file mem => each file (order.mem_iff.mpr mem)
  · exact (order.map _).nodup_iff.mp spread
  · exact fun file mem => apart file (order.mem_iff.mpr mem)
  · rwa [← (order.map _).sum_eq]
  · rwa [← order.length_eq]

theorem Fits.distinct {files : List PackageSourceFile} (fits : Fits {} files) :
    files.Pairwise fun left right => compareSourceFile left right ≠ .eq := by
  obtain ⟨_, spread, _⟩ := (fits_iff bounded_empty files).mp fits
  refine (pairwise_map.mp spread).imp fun {left right} ne same => ne ?_
  rw [compareSourceFile, LawfulEqCmp.compare_eq_iff_eq] at same
  rw [same]

/-! ### One file -/

theorem addSourceFile_ok_iff {fail : SourceCheck → SourceStop} {oversized : Nat → Bool}
    {r : SourceRecord} {file : PackageSourceFile}
    (limit : oversized file.size = decide (maxSourceFileBytes < file.size)) (t : SourceRecord) :
    addSourceFile fail oversized r file = .ok t
      ↔ FitsFile r file ∧ t = r.push file := by
  have room : maxSourceFileBytes ≤ maxSourceBytes := by decide
  unfold addSourceFile FitsFile
  rw [limit]
  by_cases portable : portablePath file.path = false
  · simp [portable]
  by_cases seen : folded file.path ∈ r.foldedPaths
  · simp [portable, seen]
  by_cases large : maxSourceFileBytes < file.size
  · simp [portable, seen, large]
  by_cases total : r.totalBytes > maxSourceBytes - file.size
  · rw [if_neg portable, if_neg seen, if_neg (by simpa using large), if_neg (by omega), if_pos total]
    simp only [reduceCtorEq, false_iff]
    omega
  by_cases count : r.files.length = maxSourceFiles
  · rw [if_neg portable, if_neg seen, if_neg (by simpa using large), if_neg (by omega), if_neg total,
      if_pos count]
    simp [count]
  · rw [if_neg portable, if_neg seen, if_neg (by simpa using large), if_neg (by omega), if_neg total,
      if_neg count]
    rw [Bool.not_eq_false] at portable
    constructor
    · intro done
      cases done
      exact ⟨⟨portable, seen, by omega, by omega, count⟩, rfl⟩
    · rintro ⟨_, rfl⟩
      rfl

theorem foldlM_files_ok_iff {α : Type} {gives : α → List PackageSourceFile → Prop}
    {step : SourceRecord → α → Except SourceStop SourceRecord} (sources : List α)
    (each : ∀ source ∈ sources, ∀ r t, step r source = .ok t
      ↔ ∃ files, gives source files ∧ Fits r files ∧ t = r.pushAll files)
    (r t : SourceRecord) :
    sources.foldlM step r = .ok t
      ↔ ∃ files, Gathers gives sources files ∧ Fits r files ∧ t = r.pushAll files :=
  foldlM_ok_iff (fun _ => trivial) (fun _ => rfl) fits_append pushAll_append sources each r t

theorem fits_singleton (r : SourceRecord) (file : PackageSourceFile) :
    Fits r [file] ↔ FitsFile r file :=
  iff_of_eq (and_true _)

/-! ### Walks -/

/-- The files below an entry, at most so many levels deep. -/
def Lists : Nat → String → Node → List PackageSourceFile → Prop
  | _, path, .file bytes, files => files = [⟨lexicallyNormal path, bytes.length⟩]
  | 0, _, .directory entries, files => entries = [] ∧ files = []
  | depth + 1, path, .directory entries, files =>
    Gathers (fun entry => Lists depth (joinPath path entry.1.text) entry.2) entries files
  | _, _, _, _ => False

/-- **A walk collects what its directory lists.** -/
theorem walkSource_ok_iff (fail : SourceCheck → String → SourceStop) (d : Nat)
    (directory : String) (entries : List (EntryName × Node)) (r t : SourceRecord) :
    walkSource fail d directory entries r = .ok t
      ↔ ∃ files, Lists d directory (.directory entries) files ∧ Fits r files
        ∧ t = r.pushAll files := by
  induction d generalizing directory entries r t with
  | zero =>
    cases entries with
    | nil =>
      constructor
      · intro done
        cases done
        exact ⟨[], ⟨rfl, rfl⟩, trivial, rfl⟩
      · rintro ⟨_, ⟨_, rfl⟩, _, rfl⟩
        rfl
    | cons =>
      constructor
      · intro done
        cases done
      · rintro ⟨_, ⟨empty, _⟩, _⟩
        cases empty
  | succ d ih =>
    refine foldlM_files_ok_iff entries (fun entry _ r t => ?_) r t
    obtain ⟨name, node⟩ := entry
    cases node with
    | link =>
      constructor
      · intro done
        cases done
      · rintro ⟨_, listed, _⟩
        cases d <;> exact listed.elim
    | special =>
      constructor
      · intro done
        cases done
      · rintro ⟨_, listed, _⟩
        cases d <;> exact listed.elim
    | directory => exact ih _ _ _ _
    | file bytes =>
      have lists (files : List PackageSourceFile) :
          Lists d (joinPath directory name.text) (.file bytes) files
            ↔ files = [⟨lexicallyNormal (joinPath directory name.text), bytes.length⟩] := by
        cases d <;> exact Iff.rfl
      show addSourceFile _ _ _ _ = _ ↔ _
      rw [addSourceFile_ok_iff rfl]
      constructor
      · rintro ⟨fits, rfl⟩
        exact ⟨_, (lists _).mpr rfl, (fits_singleton _ _).mpr fits, rfl⟩
      · rintro ⟨files, listed, fits, rfl⟩
        cases (lists files).mp listed
        exact ⟨(fits_singleton _ _).mp fits, rfl⟩

/-- The files below a source directory. -/
def SourceListing (tree : Node) (directory : String) (files : List PackageSourceFile) : Prop :=
  ∃ entries, tree.status directory = some (.directory entries)
    ∧ Lists maxSourceDepth directory (.directory entries) files

theorem addSource_ok_iff (packageDirectory : String) (tree : Node) (dir : String)
    (r t : SourceRecord) :
    addSource packageDirectory tree r dir = .ok t
      ↔ ∃ files, SourceListing tree dir files ∧ Fits r files
        ∧ t = r.pushAll files := by
  unfold addSource
  split
  · rename_i entries found
    rw [walkSource_ok_iff]
    constructor
    · rintro ⟨files, listed, fits⟩
      exact ⟨files, ⟨entries, found, listed⟩, fits⟩
    · rintro ⟨files, ⟨_, again, listed⟩, fits⟩
      cases found.symm.trans again
      exact ⟨files, listed, fits⟩
  · rename_i missing
    constructor
    · intro done
      cases done
    · rintro ⟨_, ⟨entries, found, _⟩, _⟩
      exact absurd found (missing entries)

/-! ### Hashed files -/

/-- A file that can be read as it was found. -/
def Readable (read : String → Option (List Char)) (file : PackageSourceFile) : Prop :=
  file.path.length < 2 ^ 64 ∧ ∃ bytes, read file.path = some bytes ∧ bytes.length = file.size

/-- The bytes of files, each behind its header. -/
def fedBytes (read : String → Option (List Char)) (files : List PackageSourceFile) : List Char :=
  files.flatMap fun file => updateEntryHeader file.path file.size ++ (read file.path).getD []

theorem hashFiles_ok_iff (read : String → Option (List Char)) (changed : String → SourceStop)
    (files : List PackageSourceFile) (bytes : List Char) :
    hashFiles read changed files = .ok bytes
      ↔ (∀ file ∈ files, Readable read file) ∧ bytes = fedBytes read files := by
  induction files generalizing bytes with
  | nil =>
    constructor
    · intro done
      cases done
      exact ⟨by simp, rfl⟩
    · rintro ⟨_, rfl⟩
      rfl
  | cons file rest ih =>
    unfold hashFiles
    by_cases long : 2 ^ 64 ≤ file.path.length
    · rw [if_pos long]
      simp only [reduceCtorEq, false_iff, not_and]
      intro readable
      have short := (readable file mem_cons_self).1
      omega
    rw [if_neg long]
    cases fed : hashFile (read file.path) file.size with
    | none =>
      constructor
      · intro done
        cases done
      · rintro ⟨readable, _⟩
        obtain ⟨_, bytes, found, size⟩ := readable file mem_cons_self
        rw [hashFile, found] at fed
        simp [size] at fed
    | some content =>
      have found : read file.path = some content ∧ content.length = file.size := by
        rw [hashFile, Option.filter_eq_some_iff] at fed
        exact ⟨fed.1, by simpa using fed.2⟩
      have here : Readable read file := ⟨by omega, content, found⟩
      constructor
      · intro done
        cases later : hashFiles read changed rest with
        | error =>
          rw [later] at done
          cases done
        | ok others =>
          rw [later] at done
          obtain ⟨readable, rfl⟩ := (ih others).mp later
          cases done
          refine ⟨forall_mem_cons.mpr ⟨here, readable⟩, ?_⟩
          simp [fedBytes, found.1]
      · rintro ⟨readable, rfl⟩
        obtain ⟨_, others⟩ := forall_mem_cons.mp readable
        show (hashFiles read changed rest >>= _) = _
        rw [(ih _).mpr ⟨others, rfl⟩]
        simp [fedBytes, found.1, bind, Except.bind]

/-! ### Foreign sources -/

/-- A file of a foreign source, by its path below the package directory. -/
def relocate (resolver : String) (file : PackageSourceFile) : PackageSourceFile :=
  ⟨lexicallyNormal (joinPath resolver file.path), file.size⟩

section Foreign

variable (packageDirectory : String) (tree : Node)

/-- A foreign source that passes the checks of `inspectForeignSource`. -/
structure ForeignSource (resolver : String) (found : List PackageSourceFile) : Prop where
  components : ∃ current, checkComponents packageDirectory tree resolver = .ok current
  listed : ∃ entries, tree.status resolver = some (.directory entries)
    ∧ Lists maxSourceDepth "" (.directory entries) found
  nonempty : found ≠ []
  fits : Fits {} found
  readable : ∀ file ∈ found, Readable (fun path => tree.read (joinPath resolver path)) file

/-- The files that one foreign entry of the manifest adds. -/
def ForeignListing (manifest : PackageManifest) (foreign : Foreign)
    (files : List PackageSourceFile) : Prop :=
  if foreign.kind = "path" ∧ ownsNativeSource manifest (lexicallyNormal foreign.resolver) = true then
    ∃ found, ForeignSource packageDirectory tree (lexicallyNormal foreign.resolver) found
      ∧ files = (sortSourceFiles found).map (relocate (lexicallyNormal foreign.resolver))
  else files = []

theorem mem_sortSourceFiles (files : List PackageSourceFile) (file : PackageSourceFile) :
    file ∈ sortSourceFiles files ↔ file ∈ files :=
  (stdSort_perm _ files).mem_iff

omit packageDirectory tree in
theorem files_sort_pushAll (files : List PackageSourceFile) :
    (SourceRecord.pushAll {} files).sort.files = sortSourceFiles files := by
  rw [SourceRecord.sort, pushAll_eq]
  rfl

theorem collectForeignSource_ok_iff (directory : String) (r : SourceRecord) :
    collectForeignSource packageDirectory tree directory = .ok r
      ↔ ∃ entries found, tree.status directory = some (.directory entries)
        ∧ Lists maxSourceDepth "" (.directory entries) found ∧ Fits {} found ∧ found ≠ []
        ∧ r = (SourceRecord.pushAll {} found).sort := by
  unfold collectForeignSource
  cases status : tree.status directory with
  | none => simp
  | some node =>
    cases node with
    | file => simp
    | link => simp
    | special => simp
    | directory entries =>
      have got (found : List PackageSourceFile) : (SourceRecord.pushAll {} found).files = found := by
        rw [pushAll_eq]
        rfl
      simp only [Option.some.injEq, Node.directory.injEq]
      constructor
      · intro done
        cases w : walkSource (fun check path => sourceError
            (joinPath (joinPath packageDirectory directory) path) (foreignCheck check))
            maxSourceDepth "" entries {} with
        | error stop =>
          rw [w] at done
          cases done
        | ok m =>
          obtain ⟨found, listed, fits, rfl⟩ := (walkSource_ok_iff _ _ _ _ _ _).mp w
          rw [w] at done
          simp only [bind, Except.bind, got] at done
          split at done
          · cases done
          · rename_i nonempty
            cases done
            exact ⟨entries, found, rfl, listed, fits, nonempty, rfl⟩
      · rintro ⟨_, found, rfl, listed, fits, nonempty, rfl⟩
        rw [(walkSource_ok_iff _ _ _ _ _ _).mpr ⟨found, listed, fits, rfl⟩]
        simp only [bind, Except.bind, got, if_neg nonempty]

theorem hashForeignSource_ok_iff (dir : String) (r : SourceRecord) (bytes : List Char) :
    hashForeignSource packageDirectory tree dir = .ok (r, bytes)
      ↔ collectForeignSource packageDirectory tree dir = .ok r
        ∧ (∀ file ∈ r.files, Readable (fun path => tree.read (joinPath dir path)) file)
        ∧ bytes = "foundation.foreign.path.digest/v1".toList
          ++ fedBytes (fun path => tree.read (joinPath dir path)) r.files := by
  unfold hashForeignSource
  cases got : collectForeignSource packageDirectory tree dir with
  | error => simp [bind, Except.bind]
  | ok m =>
    constructor
    · intro done
      cases hashed : hashFiles (fun path => tree.read (joinPath dir path))
          (fun path => sourceError (joinPath (joinPath packageDirectory dir) path)
            ("FDN4057", "foreign path source changed while it was read")) m.files with
      | error stop =>
        simp only [bind, Except.bind, hashed] at done
        cases done
      | ok content =>
        simp only [bind, Except.bind, hashed] at done
        obtain ⟨readable, rfl⟩ := (hashFiles_ok_iff _ _ _ _).mp hashed
        cases done
        exact ⟨rfl, readable, rfl⟩
    · rintro ⟨same, readable, rfl⟩
      cases same
      simp only [bind, Except.bind, (hashFiles_ok_iff _ _ _ _).mpr ⟨readable, rfl⟩]

theorem addForeign_ok_iff (m : PackageManifest) (foreign : Foreign)
    (r t : SourceRecord) :
    addForeign packageDirectory tree m r foreign = .ok t
      ↔ ∃ files, ForeignListing packageDirectory tree m foreign files ∧ Fits r files
        ∧ t = r.pushAll files := by
  have skipped (files : List PackageSourceFile) :
      (Except.ok r : Except SourceStop SourceRecord) = .ok t
        ↔ ∃ files, files = [] ∧ Fits r files ∧ t = r.pushAll files := by
    constructor
    · intro done
      cases done
      exact ⟨[], rfl, trivial, rfl⟩
    · rintro ⟨_, rfl, _, rfl⟩
      rfl
  unfold addForeign ForeignListing
  by_cases path : foreign.kind = "path"
  swap
  · simp only [path, ne_eq, not_false_eq_true, if_true, false_and, if_false]
    exact skipped []
  by_cases owns : ownsNativeSource m (lexicallyNormal foreign.resolver) = true
  swap
  · simp only [path, Bool.not_eq_true _ ▸ owns, ne_eq, not_true_eq_false, if_false, if_true,
      Bool.false_eq_true, and_false]
    exact skipped []
  simp only [path, owns, ne_eq, not_true_eq_false, if_false, Bool.true_eq_false, and_self, if_true]
  generalize lexicallyNormal foreign.resolver = resolver
  -- The files of an accepted snapshot are small, so the limit of one file need not be checked again.
  have merge {found : List PackageSourceFile} (fits : Fits {} found) :
      (sortSourceFiles found).foldlM (fun r file =>
          addSourceFile (fun check => sourceError (joinPath packageDirectory
            (lexicallyNormal (joinPath resolver file.path))) (packageCheck check))
            (fun _ => false) r ⟨lexicallyNormal (joinPath resolver file.path), file.size⟩) r
            = .ok t
        ↔ ∃ files, Gathers (fun file part => part = [relocate resolver file]) (sortSourceFiles found) files
          ∧ Fits r files ∧ t = r.pushAll files := by
    refine foldlM_files_ok_iff _ (fun file mem r t => ?_) r t
    obtain ⟨small, _⟩ := (fits_iff bounded_empty found).mp fits
    have limit := (small file ((mem_sortSourceFiles found file).mp mem)).2
    rw [addSourceFile_ok_iff (by simpa using limit)]
    constructor
    · rintro ⟨fit, rfl⟩
      exact ⟨_, rfl, (fits_singleton _ _).mpr fit, rfl⟩
    · rintro ⟨_, rfl, fit, rfl⟩
      exact ⟨(fits_singleton _ _).mp fit, rfl⟩
  constructor
  · intro done
    cases components : checkComponents packageDirectory tree resolver with
    | error =>
      simp only [bind, Except.bind, components] at done
      cases done
    | ok current =>
      cases hashed : hashForeignSource packageDirectory tree resolver with
      | error =>
        simp only [bind, Except.bind, components, hashed] at done
        cases done
      | ok =>
        simp only [bind, Except.bind, components, hashed] at done
        obtain ⟨got, readable, _⟩ := (hashForeignSource_ok_iff _ _ _ _ _).mp hashed
        obtain ⟨entries, found, status, listed, fits, nonempty, same⟩ :=
          (collectForeignSource_ok_iff _ _ _ _).mp got
        rw [same, files_sort_pushAll] at done readable
        obtain ⟨files, gathered, fit, rfl⟩ := (merge fits).mp done
        refine ⟨files, ⟨found, ⟨⟨current, components⟩, ⟨entries, status, listed⟩, nonempty, fits, ?_⟩,
          gathers_singleton.mp gathered⟩, fit, rfl⟩
        exact fun file mem => readable file ((mem_sortSourceFiles found file).mpr mem)
  · rintro ⟨_, ⟨found, source, rfl⟩, fit, rfl⟩
    obtain ⟨⟨_, components⟩, ⟨entries, status, listed⟩, nonempty, fits, readable⟩ := source
    have got := (collectForeignSource_ok_iff packageDirectory tree resolver _).mpr
      ⟨entries, found, status, listed, fits, nonempty, rfl⟩
    have hashed := (hashForeignSource_ok_iff packageDirectory tree resolver _ _).mpr
      ⟨got, fun file mem => readable file
        ((mem_sortSourceFiles found file).mp (files_sort_pushAll found ▸ mem)), rfl⟩
    simp only [bind, Except.bind, components, hashed, files_sort_pushAll]
    exact (merge fits).mpr ⟨_, gathers_singleton.mpr rfl, fit, rfl⟩

end Foreign

/-! ### The whole package -/

theorem length_sortSourceFiles (files : List PackageSourceFile) :
    (sortSourceFiles files).length = files.length :=
  (stdSort_perm _ files).length_eq

instance : TransCmp compareSourceFile :=
  transCmp_on compare PackageSourceFile.path

theorem sortSourceFiles_perm {files others : List PackageSourceFile} (fits : Fits {} files)
    (order : files.Perm others) : sortSourceFiles files = sortSourceFiles others :=
  stdSort_eq_of_perm order fits.distinct

/-- The files that the source directories and the foreign sources list. -/
structure PackageListing (packageDirectory : String) (tree : Node) (manifest : PackageManifest)
    (own taken : List PackageSourceFile) : Prop where
  root : ∃ entries, tree = .directory entries
  sources : Gathers (SourceListing tree) (sourceDirectories manifest) own
  foreign : Gathers (ForeignListing packageDirectory tree manifest) manifest.foreign taken
  fits : Fits {} (own ++ taken)

/-- The record that is collected, from the lists of the source directories and the foreign sources.
-/
theorem collectPackageSource_ok_iff (packageDirectory : String) (tree : Node)
    (m : PackageManifest) (r : SourceRecord) :
    collectPackageSource packageDirectory tree m = .ok r
      ↔ ∃ own taken, PackageListing packageDirectory tree m own taken
        ∧ r = (SourceRecord.pushAll {} (own ++ taken)).sort := by
  have sources := foldlM_files_ok_iff (sourceDirectories m)
    (fun dir _ => addSource_ok_iff packageDirectory tree dir)
  have foreign := foldlM_files_ok_iff m.foreign
    (fun foreign _ => addForeign_ok_iff packageDirectory tree m foreign)
  -- Sorting the files in between changes neither the checks nor what is sorted in the end.
  have between {own taken : List PackageSourceFile} (fits : Fits {} own) :
      Fits (SourceRecord.pushAll {} own).sort taken ↔ Fits (SourceRecord.pushAll {} own) taken := by
    have bounded := fits.bounded bounded_empty
    have sorted : (SourceRecord.pushAll {} own).sort.Bounded := by
      refine ⟨bounded.1, ?_⟩
      rw [SourceRecord.sort, length_sortSourceFiles]
      exact bounded.2
    rw [fits_iff sorted, fits_iff bounded]
    simp only [SourceRecord.sort, length_sortSourceFiles]
  have last {own taken : List PackageSourceFile} (fits : Fits {} (own ++ taken)) :
      ((SourceRecord.pushAll {} own).sort.pushAll taken).sort
        = (SourceRecord.pushAll {} (own ++ taken)).sort := by
    have final : sortSourceFiles (sortSourceFiles own ++ taken) = sortSourceFiles (own ++ taken) :=
      (sortSourceFiles_perm fits ((stdSort_perm _ own).symm.append_right taken)).symm
    simp only [SourceRecord.sort, pushAll_eq, nil_append]
    rw [final]
    simp
  by_cases root : ∃ entries, tree = .directory entries
  swap
  · constructor
    · intro done
      unfold collectPackageSource at done
      split at done
      · exact absurd ⟨_, rfl⟩ root
      · cases done
    · rintro ⟨_, _, listing, _⟩
      exact absurd listing.root root
  obtain ⟨entries, rfl⟩ := root
  unfold collectPackageSource
  constructor
  · intro done
    cases first : (sourceDirectories m).foldlM
        (addSource packageDirectory (.directory entries)) {} with
    | error stop =>
      simp only [bind, Except.bind, first] at done
      cases done
    | ok middle =>
      obtain ⟨own, gathered, fit, rfl⟩ := (sources _ _).mp first
      simp only [bind, Except.bind, first] at done
      cases second : m.foreign.foldlM
          (addForeign packageDirectory (.directory entries) m)
          (SourceRecord.pushAll {} own).sort with
      | error stop =>
        rw [second] at done
        cases done
      | ok later =>
        obtain ⟨taken, others, fits, rfl⟩ := (foreign _ _).mp second
        rw [second] at done
        cases done
        have all := (fits_append _ _ _).mpr ⟨fit, (between fit).mp fits⟩
        exact ⟨own, taken, ⟨⟨entries, rfl⟩, gathered, others, all⟩, last all⟩
  · rintro ⟨own, taken, ⟨_, gathered, others, all⟩, rfl⟩
    obtain ⟨fit, fits⟩ := (fits_append _ _ _).mp all
    simp only [bind, Except.bind, (sources _ _).mpr ⟨own, gathered, fit, rfl⟩,
      (foreign _ _).mpr ⟨taken, others, (between fit).mpr fits, rfl⟩]
    rw [last all]

/-- The bytes behind the digest of a package. -/
def packageBytes (tree : Node) (manifest : PackageManifest) (files : List PackageSourceFile) :
    List Char :=
  "foundation.package.digest/v1".toList
    ++ updateEntryHeader "foundation.package" (renderPackageManifest manifest).length
    ++ (renderPackageManifest manifest).toList ++ fedBytes tree.read files

theorem hashPackageSource_ok_iff (packageDirectory : String) (tree : Node)
    (m : PackageManifest) (r : SourceRecord) (bytes : List Char) :
    hashPackageSource packageDirectory tree m = .ok (r, bytes)
      ↔ collectPackageSource packageDirectory tree m = .ok r
        ∧ (renderPackageManifest m).length < 2 ^ 64
        ∧ (∀ file ∈ r.files, Readable tree.read file)
        ∧ bytes = packageBytes tree m r.files := by
  unfold hashPackageSource
  cases got : collectPackageSource packageDirectory tree m with
  | error => simp [bind, Except.bind]
  | ok middle =>
    by_cases long : 2 ^ 64 ≤ (renderPackageManifest m).length
    · have short : ¬(renderPackageManifest m).length < 2 ^ 64 := by omega
      simp only [bind, Except.bind, if_pos long, short, false_and, and_false, reduceCtorEq]
    have short : (renderPackageManifest m).length < 2 ^ 64 := by omega
    simp only [bind, Except.bind, if_neg long]
    constructor
    · intro done
      cases hashed : hashFiles tree.read (fun path => sourceError (joinPath packageDirectory path)
          ("FDN4040", "package source changed while it was read")) middle.files with
      | error stop =>
        rw [hashed] at done
        cases done
      | ok content =>
        obtain ⟨readable, rfl⟩ := (hashFiles_ok_iff _ _ _ _).mp hashed
        rw [hashed] at done
        cases done
        exact ⟨rfl, short, readable, rfl⟩
    · rintro ⟨same, _, readable, rfl⟩
      cases same
      unfold packageBytes
      rw [(hashFiles_ok_iff _ _ _ _).mpr ⟨readable, rfl⟩]

end FoundationLang.Package
