/-
**Locks and their texts.**

Every lock that `parsePackageLock` accepts is a valid lock in canonical order, and a valid lock is
rendered to a text that parses to its canonical order. So what is parsed, rendered and parsed again
is the same lock.
-/

import FoundationLang.Package.LockGraph

namespace FoundationLang.Package

open Std List

variable {lock s : PackageLock} {args : List String} {r : LockReader}
variable {target : TargetPlatform}

/-! ### Valid locks -/

/-- A foreign entry that its directive accepts. -/
structure LockedForeign.Valid (entry : LockedForeign) : Prop where
  ecosystem : foreignEcosystem entry.ecosystem = true
  identifier : entry.identifier ≠ ""
  version : entry.version ≠ ""
  kind : foreignKind entry.kind = true
  resolver : entry.resolver ≠ ""
  digest : Package.digest entry.digest = true

/-- What makes a foreign entry unique. -/
def LockedForeign.key (entry : LockedForeign) : String × String :=
  (entry.ecosystem, entry.identifier)

/-- A package that its directive accepts. -/
structure LockedPackage.Valid (package : LockedPackage) : Prop where
  name : identifier package.name = true
  version : package.version.Valid
  digest : Package.digest package.digest = true
  location : validLocation package.kind package.location = true

/-- A native library that its directive accepts. -/
structure LockedNativeLibrary.Valid (native : LockedNativeLibrary) : Prop where
  name : identifier native.name = true
  digest : Package.digest native.digest = true

/-- The entries of a lock that come in lists, and its native library. -/
structure PackageLock.Entries (lock : PackageLock) : Prop where
  native : ∀ native, lock.nativeLibrary = some native → native.Valid
  foreign : ∀ entry ∈ lock.foreign, entry.Valid
  foreignUnique : (lock.foreign.map LockedForeign.key).Nodup
  packages : ∀ package ∈ lock.packages, package.Valid
  packagesUnique : (lock.packages.map (·.name)).Nodup
  edges : ∀ edge ∈ lock.edges, identifier edge.parent = true ∧ identifier edge.dependency = true

/-- **Every field of the lock is one that its directive accepts.** -/
structure PackageLock.Fields (lock : PackageLock) : Prop extends lock.Entries where
  rootName : identifier lock.rootName = true
  rootVersion : lock.rootVersion.Valid
  target : lock.target ≠ .unknown

/-! ### What a directive accepts -/

/-- What the reader knows of the lock as long as it has reported nothing. -/
structure LockReader.Valid (reader : LockReader) : Prop where
  entries : reader.lock.Entries
  root : reader.rootSeen = true →
    identifier reader.lock.rootName = true ∧ reader.lock.rootVersion.Valid
  target : reader.targetSeen = true → reader.lock.target ≠ .unknown

theorem parseTargetPlatform_ne_unknown {v : String}
    (parsed : parseTargetPlatform v = some target) : target ≠ .unknown := by
  unfold parseTargetPlatform at parsed
  split_ifs at parsed <;> cases parsed <;> simp

theorem rootEntry_ok (ran : rootEntry r args = .ok lock) :
    ∃ name version, identifier name = true ∧ version.Valid
      ∧ lock = { r.lock with rootName := name, rootVersion := version } := by
  unfold rootEntry at ran
  split at ran
  · split at ran
    · rename_i version parsed
      split at ran
      · rename_i checked
        cases ran
        rw [Bool.and_eq_true] at checked
        exact ⟨_, version, checked.1, parsePackageVersion_valid parsed, rfl⟩
      · cases ran
    · cases ran
  · cases ran

theorem targetEntry_ok (ran : targetEntry r args = .ok lock) :
    ∃ target, target ≠ .unknown ∧ lock = { r.lock with target := target } := by
  unfold targetEntry at ran
  split at ran
  · split at ran
    · rename_i target parsed
      split at ran
      · cases ran
      · cases ran
        exact ⟨target, parseTargetPlatform_ne_unknown parsed, rfl⟩
    · cases ran
  · cases ran

theorem nativeEntry_ok (ran : nativeEntry r args = .ok lock) :
    ∃ native : LockedNativeLibrary, native.Valid
      ∧ lock = { r.lock with nativeLibrary := some native } := by
  unfold nativeEntry at ran
  split at ran
  · rename_i kind name text digestText
    split at ran
    · rename_i version _
      split at ran
      · rename_i checked
        cases ran
        simp only [Bool.and_eq_true] at checked
        exact ⟨⟨name, version, digestText⟩, ⟨checked.1.1.2, checked.1.2⟩, rfl⟩
      · cases ran
    · cases ran
  · cases ran

theorem foreignEntry_ok (ran : foreignEntry s args = .ok lock) :
    ∃ entry : LockedForeign, entry.Valid ∧ entry.key ∉ s.foreign.map LockedForeign.key
      ∧ lock = { s with foreign := s.foreign ++ [entry] } := by
  unfold foreignEntry at ran
  split at ran
  · rename_i ecosystem name version kind resolver abi level digestText
    split at ran
    · rename_i checked
      cases ran
      simp only [Bool.and_eq_true, Bool.not_eq_true', String.isEmpty_eq_false_iff, any_eq_false,
        beq_iff_eq, not_and] at checked
      obtain ⟨⟨⟨⟨⟨⟨⟨⟨known, named⟩, versioned⟩, kinded⟩, resolved⟩, _⟩, _⟩, hex⟩, fresh⟩ := checked
      refine ⟨⟨ecosystem, name, version, kind, resolver, digestText⟩,
        ⟨known, named, versioned, kinded, resolved, hex⟩, fun mem => ?_, rfl⟩
      obtain ⟨y, present, same⟩ := mem_map.mp mem
      obtain ⟨one, two⟩ := Prod.mk.inj same
      exact fresh y present one two
    · cases ran
  · cases ran

theorem packageEntry_ok (ran : packageEntry s args = .ok lock) :
    ∃ package : LockedPackage, package.Valid ∧ package.name ∉ s.packages.map (·.name)
      ∧ lock = { s with packages := s.packages ++ [package] } := by
  unfold packageEntry at ran
  split at ran
  · rename_i name text digestText word location
    split at ran
    · rename_i version kind parsed _
      split at ran
      · rename_i checked
        split at ran
        · cases ran
        · rename_i fresh
          cases ran
          simp only [Bool.and_eq_true] at checked
          refine ⟨⟨name, version, digestText, kind, location⟩,
            ⟨checked.1.1, parsePackageVersion_valid parsed, checked.1.2, checked.2⟩,
            fun mem => fresh ?_, rfl⟩
          obtain ⟨y, present, same⟩ := mem_map.mp mem
          exact any_eq_true.mpr ⟨y, present, beq_iff_eq.mpr same⟩
      · cases ran
    · cases ran
  · cases ran

theorem edgeEntry_ok (ran : edgeEntry s args = .ok lock) :
    ∃ edge : PackageEdge, (identifier edge.parent = true ∧ identifier edge.dependency = true)
      ∧ lock = { s with edges := s.edges ++ [edge] } := by
  unfold edgeEntry at ran
  split at ran
  · rename_i parent dep qualifiers
    split at ran
    · rename_i scope _
      split at ran
      · rename_i checked
        cases ran
        rw [Bool.and_eq_true] at checked
        exact ⟨⟨parent, dep, scope⟩, checked, rfl⟩
      · cases ran
    · cases ran
  · cases ran

theorem formatEntry_ok (ran : formatEntry r args = .ok lock) :
    lock = r.lock := by
  unfold formatEntry at ran
  split at ran
  · cases ran
    rfl
  · cases ran

/-! ### What the reader keeps -/

/-- A reader that has reported nothing took what the directive made. -/
theorem accept_errors_eq_nil {path : String} {line : Nat} {e : LockEntry}
    (silent : (r.accept path line e).errors = []) :
    ∃ lock, e = .ok lock ∧ r.errors = []
      ∧ r.accept path line e = { r with lock := lock } := by
  unfold LockReader.accept at silent ⊢
  split at silent
  · exact ⟨_, rfl, silent, rfl⟩
  · simp [LockReader.report] at silent

theorem nodup_map_append {α β : Type} {key : α → β} {vs : List α} {v : α}
    (distinct : (vs.map key).Nodup) (fresh : key v ∉ vs.map key) :
    ((vs ++ [v]).map key).Nodup := by
  rw [map_append]
  exact nodup_append_comm.mpr (nodup_cons.mpr ⟨fresh, distinct⟩)

theorem forall_mem_append_singleton {α : Type} {holds : α → Prop} {vs : List α} {v : α}
    (all : ∀ other ∈ vs, holds other) (last : holds v) :
    ∀ other ∈ vs ++ [v], holds other :=
  forall_mem_append.mpr ⟨all, forall_mem_singleton.mpr last⟩

/-- **One line keeps what the reader knows**, as long as nothing is reported. -/
theorem lockDirective_valid (path directive : String) (args : List String) (line : Nat)
    (r : LockReader) (valid : r.errors = [] → r.Valid)
    (silent : (lockDirective path directive args line r).errors = []) :
    (lockDirective path directive args line r).Valid := by
  unfold lockDirective at silent ⊢
  split at silent
  case isTrue =>
    obtain ⟨lock, ran, s, after⟩ := accept_errors_eq_nil silent
    obtain ⟨entries, root, target⟩ := valid s
    rw [if_pos ‹_›, after, formatEntry_ok ran]
    exact ⟨entries, root, target⟩
  rw [if_neg ‹_›]
  split at silent
  case isTrue =>
    obtain ⟨lock, ran, s, after⟩ := accept_errors_eq_nil silent
    obtain ⟨name, version, named, versioned, rfl⟩ := rootEntry_ok ran
    obtain ⟨entries, _, target⟩ := valid s
    rw [if_pos ‹_›, after]
    exact ⟨⟨entries.native, entries.foreign, entries.foreignUnique, entries.packages,
      entries.packagesUnique, entries.edges⟩, fun _ => ⟨named, versioned⟩, target⟩
  rw [if_neg ‹_›]
  split at silent
  case isTrue =>
    obtain ⟨lock, ran, s, after⟩ := accept_errors_eq_nil silent
    obtain ⟨target, known, rfl⟩ := targetEntry_ok ran
    obtain ⟨entries, root, _⟩ := valid s
    rw [if_pos ‹_›, after]
    exact ⟨⟨entries.native, entries.foreign, entries.foreignUnique, entries.packages,
      entries.packagesUnique, entries.edges⟩, root, fun _ => known⟩
  rw [if_neg ‹_›]
  split at silent
  case isTrue =>
    obtain ⟨lock, ran, s, after⟩ := accept_errors_eq_nil silent
    obtain ⟨native, known, rfl⟩ := nativeEntry_ok ran
    obtain ⟨entries, root, target⟩ := valid s
    rw [if_pos ‹_›, after]
    refine ⟨⟨fun y same => ?_, entries.foreign, entries.foreignUnique, entries.packages,
      entries.packagesUnique, entries.edges⟩, root, target⟩
    cases same
    exact known
  rw [if_neg ‹_›]
  split at silent
  case isTrue =>
    obtain ⟨lock, ran, s, after⟩ := accept_errors_eq_nil silent
    obtain ⟨entry, known, fresh, rfl⟩ := foreignEntry_ok ran
    obtain ⟨entries, root, target⟩ := valid s
    rw [if_pos ‹_›, after]
    exact ⟨⟨entries.native, forall_mem_append_singleton entries.foreign known,
      nodup_map_append entries.foreignUnique fresh, entries.packages, entries.packagesUnique,
      entries.edges⟩, root, target⟩
  rw [if_neg ‹_›]
  split at silent
  case isTrue =>
    obtain ⟨lock, ran, s, after⟩ := accept_errors_eq_nil silent
    obtain ⟨package, known, fresh, rfl⟩ := packageEntry_ok ran
    obtain ⟨entries, root, target⟩ := valid s
    rw [if_pos ‹_›, after]
    exact ⟨⟨entries.native, entries.foreign, entries.foreignUnique,
      forall_mem_append_singleton entries.packages known,
      nodup_map_append entries.packagesUnique fresh, entries.edges⟩, root, target⟩
  rw [if_neg ‹_›]
  split at silent
  case isTrue =>
    obtain ⟨lock, ran, s, after⟩ := accept_errors_eq_nil silent
    obtain ⟨edge, known, rfl⟩ := edgeEntry_ok ran
    obtain ⟨entries, root, target⟩ := valid s
    rw [if_pos ‹_›, after]
    exact ⟨⟨entries.native, entries.foreign, entries.foreignUnique, entries.packages,
      entries.packagesUnique, forall_mem_append_singleton entries.edges known⟩, root, target⟩
  case isFalse => simp [LockReader.report] at silent

theorem lines_valid (path src : String) :
    (lines LockReader.report (lockDirective path) path src {}).errors = [] →
      (lines LockReader.report (lockDirective path) path src {}).Valid := by
  refine linesWith_keeps (fun r : LockReader => r.errors = [] → r.Valid)
    path src (fun _ => ?_) (fun r error _ silent => ?_) (lockDirective_valid path)
  · refine ⟨⟨?_, ?_, ?_, ?_, ?_, ?_⟩, ?_, ?_⟩
    all_goals simp
  · simp [LockReader.report] at silent

/-! ### Canonical order -/

instance : TransCmp compareLocked := transCmp_on compare LockedPackage.name

instance : TransCmp compareForeign :=
  transCmp_on compareTexts fun entry : LockedForeign =>
    [entry.ecosystem, entry.identifier, entry.version, entry.kind, entry.resolver, entry.digest]

theorem sort_sort (lock : PackageLock) : lock.sort.sort = lock.sort := by
  simp only [PackageLock.sort, stdSort_stdSort]

theorem PackageLock.Entries.sort (entries : lock.Entries) :
    lock.sort.Entries where
  native := entries.native
  foreign := fun entry mem => entries.foreign entry ((stdSort_perm _ _).mem_iff.mp mem)
  foreignUnique := ((stdSort_perm _ _).map _).nodup_iff.mpr entries.foreignUnique
  packages := fun package mem => entries.packages package ((stdSort_perm _ _).mem_iff.mp mem)
  packagesUnique := ((stdSort_perm _ _).map _).nodup_iff.mpr entries.packagesUnique
  edges := fun edge mem => entries.edges edge ((stdSort_perm _ _).mem_iff.mp mem)

theorem PackageLock.GraphValid.sort (valid : lock.GraphValid) : lock.sort.GraphValid :=
  valid.of_perm rfl (stdSort_perm _ _) (stdSort_perm _ _)

/-- **What is accepted is valid and in canonical order.** -/
theorem parsePackageLock_accepts {path src : String}
    (ran : (parsePackageLock path src).value = some lock) :
    lock.Fields ∧ lock.GraphValid ∧ lock.sort = lock := by
  unfold parsePackageLock finishLock at ran
  have valid := lines_valid path src
  generalize lines LockReader.report (lockDirective path) path src {} = r at ran valid
  simp only at ran
  split at ran
  case isFalse => cases ran
  case isTrue silent =>
    rw [List.isEmpty_iff, List.append_eq_nil_iff] at silent
    obtain ⟨errors, missing⟩ := silent
    have seen : r.rootSeen = true ∧ r.targetSeen = true := by
      unfold missingDirectives at missing
      cases root : r.rootSeen <;> cases target : r.targetSeen <;> simp [root, target]
        at missing ⊢
    split at ran
    case h_1 => cases ran
    case h_2 graph =>
      cases ran
      obtain ⟨entries, root, target⟩ := valid errors
      exact ⟨⟨entries.sort, (root seen.1).1, (root seen.1).2, target seen.2⟩,
        (validateLockGraph_eq_none.mp graph).sort, sort_sort r.lock⟩

/-! ### The lines of a lock -/

/-- The tokens of the `native` line. -/
def nativeLine (native : LockedNativeLibrary) : Line :=
  ("native", ["c", native.name, renderSOVersion native.soVersion, native.digest])

/-- The tokens of a `foreign` line. -/
def foreignLine (entry : LockedForeign) : Line :=
  ("foreign", [entry.ecosystem, entry.identifier, entry.version, entry.kind, entry.resolver, "abi",
    "c/v1", entry.digest])

/-- The tokens of a `package` line. -/
def packageLine (package : LockedPackage) : Line :=
  ("package", [package.name, package.version.string, package.digest, locationName package.kind,
    package.location])

/-- The tokens of an `edge` line. -/
def edgeLine (edge : PackageEdge) : Line :=
  ("edge", edge.parent :: edge.dependency :: if edge.scope = .test then ["scope", "test"] else [])

/-- **The lines of a lock**, in the order in which they are rendered. -/
def lockLines (lock : PackageLock) : List Line :=
  [("format", ["foundation.lock/v1"]), ("root", [lock.rootName, lock.rootVersion.string]),
    ("target", [targetPlatformName lock.target])] ++
  lock.nativeLibrary.toList.map nativeLine ++ lock.foreign.map foreignLine ++
  lock.packages.map packageLine ++ lock.edges.map edgeLine

theorem word_digest {value : String} (valid : digest value = true) : Word value := by
  unfold digest digestHex at valid
  simp only [Bool.and_eq_true, beq_iff_eq, all_eq_true] at valid
  obtain ⟨⟨length, start⟩, hex⟩ := valid
  refine ⟨?_, fun b mem => ?_⟩
  · rintro rfl
    cases length
  · rw [← take_append_drop 7 value.toList, mem_append, start] at mem
    rcases mem with first | rest
    · have all : ∀ b ∈ "sha256:".toList, wordByte b = true :=
        all_eq_true.mp (by decide)
      exact all b first
    · have digit := hex b rest
      simp only [Bool.or_eq_true, Bool.and_eq_true, decide_eq_true_eq] at digit
      rcases digit with n | letter
      · simp [wordByte, isAlnum, isDigit, n]
      · have small : b ≤ 'z' := letter.2.trans (by decide)
        simp [wordByte, isAlnum, isAlpha, letter.1, small]

theorem word_locationName (kind : PackageLocationKind) : Word (locationName kind) := by
  cases kind <;> decide

theorem word_targetPlatformName (target : TargetPlatform) : Word (targetPlatformName target) := by
  cases target <;> decide

theorem word_soVersion (version : Option UInt32) : Word (renderSOVersion version) := by
  cases version with
  | none => decide
  | some v => exact word_digits v.toNat

theorem word_foreignKind {kind : String} (valid : foreignKind kind = true) : Word kind := by
  simp only [foreignKind, Bool.or_eq_true, beq_iff_eq] at valid
  rcases valid with (rfl | rfl) | rfl <;> decide

theorem linesText_map {α : Type} (line : α → Line) (render : α → String) (vs : List α)
    (rendered : ∀ v ∈ vs, render v = lineText (line v).tokens ++ "\n") :
    String.join (vs.map render) = linesText ((vs.map line).map Line.tokens) := by
  unfold linesText
  rw [map_map, map_map]
  exact congrArg String.join (map_congr_left rendered)

section Words

theorem renderNative_eq {native : LockedNativeLibrary} (valid : native.Valid) :
    renderNative native = lineText (nativeLine native).tokens ++ "\n" := by
  have kind : Word "c" := by decide
  have directive : Word "native" := by decide
  have start : "native c " = "native" ++ (" " ++ ("c" ++ " ")) := by decide
  unfold renderNative
  simp only [Line.tokens, nativeLine, lineText_cons_cons, lineText_singleton,
    quote_of_word directive, quote_of_word kind, quote_of_word (word_of_identifier valid.name),
    quote_of_word (word_soVersion native.soVersion), quote_of_word (word_digest valid.digest),
    start, String.append_assoc]

theorem renderForeign_eq {e : LockedForeign} (valid : e.Valid) :
    renderForeign e = lineText (foreignLine e).tokens ++ "\n" := by
  have directive : Word "foreign" := by decide
  have abi : Word "abi" := by decide
  have level : Word "c/v1" := by decide
  have start : "foreign " = "foreign" ++ " " := by decide
  have ws : " abi c/v1 " = " " ++ ("abi" ++ (" " ++ ("c/v1" ++ " "))) := by decide
  unfold renderForeign
  simp only [Line.tokens, foreignLine, lineText_cons_cons, lineText_singleton,
    quote_of_word directive, quote_of_word abi, quote_of_word level,
    quote_of_word (word_foreignKind valid.kind), quote_of_word (word_digest valid.digest),
    start, ws, String.append_assoc]

theorem renderLocked_eq {package : LockedPackage} (valid : package.Valid) :
    renderLocked package = lineText (packageLine package).tokens ++ "\n" := by
  have directive : Word "package" := by decide
  have start : "package " = "package" ++ " " := by decide
  unfold renderLocked
  simp only [Line.tokens, packageLine, lineText_cons_cons, lineText_singleton,
    quote_of_word directive, quote_of_word (word_of_identifier valid.name),
    quote_of_word (word_version valid.version), quote_of_word (word_digest valid.digest),
    quote_of_word (word_locationName package.kind), start, String.append_assoc]

theorem renderEdge_eq {edge : PackageEdge}
    (valid : identifier edge.parent = true ∧ identifier edge.dependency = true) :
    renderEdge edge = lineText (edgeLine edge).tokens ++ "\n" := by
  have directive : Word "edge" := by decide
  have scope : Word "scope" := by decide
  have test : Word "test" := by decide
  have parent := quote_of_word (word_of_identifier valid.1)
  have dep := quote_of_word (word_of_identifier valid.2)
  have start : "edge " = "edge" ++ " " := by decide
  have ws : " scope test" = " " ++ ("scope" ++ (" " ++ "test")) := by decide
  unfold renderEdge
  cases kind : edge.scope with
  | runtime =>
    simp only [Line.tokens, edgeLine, kind, reduceCtorEq, if_false, lineText_cons_cons,
      lineText_singleton, quote_of_word directive, parent, dep, start, String.append_assoc,
      String.empty_append]
  | test =>
    simp only [Line.tokens, edgeLine, kind, if_true, lineText_cons_cons, lineText_singleton,
      quote_of_word directive, parent, dep, quote_of_word scope, quote_of_word test, start,
      ws, String.append_assoc]

end Words

/-- The `native` line, if there is one. -/
def nativeText : Option LockedNativeLibrary → String
  | some library => renderNative library
  | none => ""

/-- **A lock is rendered line by line.** -/
theorem renderPackageLock_eq (fs : lock.Fields) :
    renderPackageLock lock = linesText ((lockLines lock.sort).map Line.tokens) := by
  have entries := fs.toEntries.sort
  have format : Word "format" := by decide
  have level : Word "foundation.lock/v1" := by decide
  have root : Word "root" := by decide
  have target : Word "target" := by decide
  have formatLine : "format foundation.lock/v1\n"
      = "format" ++ (" " ++ ("foundation.lock/v1" ++ "\n")) := by decide
  have rootStart : "root " = "root" ++ " " := by decide
  have targetStart : "target " = "target" ++ " " := by decide
  have foreign := linesText_map foreignLine renderForeign lock.sort.foreign fun entry mem =>
    renderForeign_eq (entries.foreign entry mem)
  have packages := linesText_map packageLine renderLocked lock.sort.packages fun package mem =>
    renderLocked_eq (entries.packages package mem)
  have edges := linesText_map edgeLine renderEdge lock.sort.edges fun edge mem =>
    renderEdge_eq (entries.edges edge mem)
  have native : nativeText lock.nativeLibrary
      = linesText ((lock.sort.nativeLibrary.toList.map nativeLine).map Line.tokens) := by
    show _ = linesText ((lock.nativeLibrary.toList.map nativeLine).map Line.tokens)
    cases found : lock.nativeLibrary with
    | none => rfl
    | some library =>
      simp only [nativeText, Option.toList_some, map_cons, map_nil, linesText_cons,
        renderNative_eq (fs.native library found)]
      simp [linesText]
  have head : "format foundation.lock/v1\n" ++
      "root " ++ lock.rootName ++ " " ++ lock.rootVersion.string ++ "\n" ++
      "target " ++ targetPlatformName lock.target ++ "\n"
      = linesText ([("format", ["foundation.lock/v1"]),
        ("root", [lock.rootName, lock.rootVersion.string]),
        ("target", [targetPlatformName lock.target])].map Line.tokens) := by
    simp only [map_cons, map_nil, Line.tokens, linesText_cons, lineText_cons_cons,
      lineText_singleton, quote_of_word format, quote_of_word level, quote_of_word root,
      quote_of_word target, quote_of_word (word_of_identifier fs.rootName),
      quote_of_word (word_version fs.rootVersion),
      quote_of_word (word_targetPlatformName lock.target), formatLine, rootStart, targetStart,
      String.append_assoc]
    simp [linesText]
  unfold renderPackageLock lockLines
  rw [map_append, map_append, map_append, map_append, linesText_append,
    linesText_append, linesText_append, linesText_append, ← foreign, ← packages, ← edges, ← native]
  rw [head]
  rfl

/-! ### Reading the lines of a lock -/

theorem parseTargetPlatform_name (known : target ≠ .unknown) :
    parseTargetPlatform (targetPlatformName target) = some target := by
  cases target with
  | unknown => exact absurd rfl known
  | linux | macOS | windows | freestanding => rfl

theorem locationKind_name (kind : PackageLocationKind) :
    locationKind (locationName kind) = some kind := by
  cases kind <;> rfl

theorem number32_toString (value : UInt32) : number32 (toString value.toNat) = some value := by
  have small : value.toNat < 2 ^ 32 := value.toNat_lt
  have wide : (UInt64.ofNat value.toNat).toNat = value.toNat :=
    UInt64.toNat_ofNat_of_lt' (by unfold UInt64.size; omega)
  have read := number_toString (UInt64.ofNat value.toNat)
  rw [wide] at read
  simp only [number32, read, Option.bind_eq_bind, Option.bind_some, wide, small, if_true,
    UInt32.ofNat_toNat]

theorem parseSOVersion_render (version : Option UInt32) :
    parseSOVersion (renderSOVersion version) = some version := by
  cases version with
  | none => rfl
  | some v =>
    show parseSOVersion (toString v.toNat) = _
    have read := number32_toString v
    have hyphen : toString v.toNat ≠ "-" := by
      intro same
      rw [same] at read
      cases read
    rw [parseSOVersion, if_neg hyphen, read]
    rfl

/-- The reader behind lines of foreign packages. -/
def LockReader.addForeign (reader : LockReader) (entries : List LockedForeign) : LockReader :=
  { reader with lock := { reader.lock with foreign := reader.lock.foreign ++ entries } }

/-- The reader behind lines of packages. -/
def LockReader.addPackages (reader : LockReader) (packages : List LockedPackage) : LockReader :=
  { reader with lock := { reader.lock with packages := reader.lock.packages ++ packages } }

/-- The reader behind lines of edges. -/
def LockReader.addEdges (reader : LockReader) (edges : List PackageEdge) : LockReader :=
  { reader with lock := { reader.lock with edges := reader.lock.edges ++ edges } }

section Read

variable (path : String) (n : Nat)

theorem read_root {name : String} {version : PackageVersion} (named : identifier name = true)
    (valid : version.Valid) (unseen : r.rootSeen = false) :
    lockDirective path "root" [name, version.string] n r
      = { r with
        lock := { r.lock with rootName := name, rootVersion := version }
        rootSeen := true } := by
  have entry : rootEntry r [name, version.string]
      = .ok { r.lock with rootName := name, rootVersion := version } := by
    simp [rootEntry, parsePackageVersion_string valid, named, unseen]
  simp only [lockDirective, String.reduceEq, reduceIte, entry]
  rfl

theorem read_target (known : target ≠ .unknown)
    (unseen : r.targetSeen = false) :
    lockDirective path "target" [targetPlatformName target] n r
      = { r with lock := { r.lock with target := target }, targetSeen := true } := by
  have entry : targetEntry r [targetPlatformName target]
      = .ok { r.lock with target := target } := by
    simp [targetEntry, parseTargetPlatform_name known, unseen]
  simp only [lockDirective, String.reduceEq, reduceIte, entry]
  rfl

theorem read_native {native : LockedNativeLibrary} (valid : native.Valid)
    (unseen : r.nativeSeen = false) :
    lockDirective path (nativeLine native).1 (nativeLine native).2 n r
      = { r with
        lock := { r.lock with nativeLibrary := some native }, nativeSeen := true } := by
  have entry : nativeEntry r (nativeLine native).2
      = .ok { r.lock with nativeLibrary := some native } := by
    simp [nativeEntry, nativeLine, parseSOVersion_render, valid.name, valid.digest, unseen]
  show lockDirective path "native" _ n r = _
  simp only [lockDirective, String.reduceEq, reduceIte, entry]
  rfl

theorem read_foreign {e : LockedForeign} (valid : e.Valid)
    (fresh : e.key ∉ r.lock.foreign.map LockedForeign.key) :
    lockDirective path (foreignLine e).1 (foreignLine e).2 n r
      = r.addForeign [e] := by
  have unused : (r.lock.foreign.any fun y =>
      y.ecosystem == e.ecosystem && y.identifier == e.identifier) = false :=
    any_key_eq_false fresh
  have ran : foreignEntry r.lock (foreignLine e).2
      = .ok { r.lock with foreign := r.lock.foreign ++ [e] } := by
    simp [foreignEntry, foreignLine, valid.ecosystem, valid.identifier, valid.version, valid.kind,
      valid.resolver, valid.digest, unused]
  show lockDirective path "foreign" _ n r = _
  simp only [lockDirective, String.reduceEq, reduceIte, ran]
  rfl

theorem read_package {package : LockedPackage} (valid : package.Valid)
    (fresh : package.name ∉ r.lock.packages.map (·.name)) :
    lockDirective path (packageLine package).1 (packageLine package).2 n r
      = r.addPackages [package] := by
  have unused : (r.lock.packages.any (·.name == package.name)) = false := by
    rw [any_eq_false]
    intro y mem same
    exact fresh (mem_map.mpr ⟨y, mem, beq_iff_eq.mp same⟩)
  have ran : packageEntry r.lock (packageLine package).2
      = .ok { r.lock with packages := r.lock.packages ++ [package] } := by
    simp [packageEntry, packageLine, parsePackageVersion_string valid.version, locationKind_name,
      valid.name, valid.digest, valid.location, unused]
  show lockDirective path "package" _ n r = _
  simp only [lockDirective, String.reduceEq, reduceIte, ran]
  rfl

theorem read_edge {edge : PackageEdge}
    (valid : identifier edge.parent = true ∧ identifier edge.dependency = true) :
    lockDirective path (edgeLine edge).1 (edgeLine edge).2 n r
      = r.addEdges [edge] := by
  have ran : edgeEntry r.lock (edgeLine edge).2
      = .ok { r.lock with edges := r.lock.edges ++ [edge] } := by
    obtain ⟨parent, dep, scope⟩ := edge
    cases scope <;> simp_all [edgeEntry, edgeLine, parseScope]
  show lockDirective path "edge" _ n r = _
  simp only [lockDirective, String.reduceEq, reduceIte, ran]
  rfl

end Read

theorem readLines_foreign (path : String) (entries : List LockedForeign) (n : Nat)
    (valid : ∀ entry ∈ entries, entry.Valid)
    (unique : ((r.lock.foreign ++ entries).map LockedForeign.key).Nodup) :
    readLines (lockDirective path) n (entries.map foreignLine) r
      = r.addForeign entries :=
  readLines_map LockReader.addForeign
    (fun r entries => ((r.lock.foreign ++ entries).map LockedForeign.key).Nodup)
    (by simp [LockReader.addForeign]) (by simp [LockReader.addForeign])
    (fun _ _ _ unique => by simpa [LockReader.addForeign] using unique)
    (fun _ _ _ n valid unique => read_foreign path n valid (fresh_of_nodup unique)) n
    valid unique

theorem readLines_packages (path : String) (packages : List LockedPackage) (n : Nat)
    (valid : ∀ package ∈ packages, package.Valid)
    (unique : ((r.lock.packages ++ packages).map (·.name)).Nodup) :
    readLines (lockDirective path) n (packages.map packageLine) r
      = r.addPackages packages :=
  readLines_map LockReader.addPackages
    (fun r packages => ((r.lock.packages ++ packages).map (·.name)).Nodup)
    (by simp [LockReader.addPackages]) (by simp [LockReader.addPackages])
    (fun _ _ _ unique => by simpa [LockReader.addPackages] using unique)
    (fun _ _ _ n valid unique => read_package path n valid (fresh_of_nodup unique)) n
    valid unique

theorem readLines_edges (path : String) (edges : List PackageEdge) (n : Nat)
    (valid : ∀ edge ∈ edges, identifier edge.parent = true ∧ identifier edge.dependency = true) :
    readLines (lockDirective path) n (edges.map edgeLine) r = r.addEdges edges :=
  readLines_map LockReader.addEdges (fun _ _ => True) (by simp [LockReader.addEdges])
    (by simp [LockReader.addEdges]) (fun _ _ _ _ => trivial)
    (fun _ _ _ n valid _ => read_edge path n valid) n valid trivial

theorem readLines_native (path : String) (native : Option LockedNativeLibrary) (n : Nat)
    (valid : ∀ v, native = some v → v.Valid)
    (unseen : r.nativeSeen = false) (absent : r.lock.nativeLibrary = none) :
    ∃ seen, readLines (lockDirective path) n (native.toList.map nativeLine) r
      = { r with
        lock := { r.lock with nativeLibrary := native }, nativeSeen := seen } := by
  cases native with
  | none =>
    refine ⟨false, ?_⟩
    show r = _
    rw [← unseen, ← absent]
  | some v =>
    refine ⟨true, ?_⟩
    rw [Option.toList_some, map_singleton, readLines_cons,
      read_native path n (valid v rfl) unseen]
    rfl

/-- The reader after the lines that every lock has. -/
def headReader (lock : PackageLock) : LockReader where
  lock := { rootName := lock.rootName, rootVersion := lock.rootVersion, target := lock.target }
  formatSeen := true
  rootSeen := true
  targetSeen := true

theorem readLines_head (path : String) (fs : lock.Fields) :
    readLines (lockDirective path) 1 [("format", ["foundation.lock/v1"]),
      ("root", [lock.rootName, lock.rootVersion.string]),
      ("target", [targetPlatformName lock.target])] {} = headReader lock := by
  have format : lockDirective path "format" ["foundation.lock/v1"] 1 {}
      = { formatSeen := true } := by
    rw [lockDirective, if_pos rfl]
    rfl
  rw [readLines_cons, readLines_cons, readLines_cons, format,
    read_root path _ fs.rootName fs.rootVersion rfl,
    read_target path _ fs.target rfl]
  rfl

theorem readLines_lockLines (path : String) (fs : lock.Fields) :
    ∃ seen, readLines (lockDirective path) 1 (lockLines lock) {}
      = { lock := lock, formatSeen := true, rootSeen := true, targetSeen := true
          nativeSeen := seen, errors := [] } := by
  unfold lockLines
  rw [readLines_append, readLines_append, readLines_append, readLines_append,
    readLines_head path fs]
  obtain ⟨seen, native⟩ := @readLines_native (headReader lock) path lock.nativeLibrary 4
    fs.native rfl rfl
  refine ⟨seen, ?_⟩
  show readLines _ _ _ (readLines _ _ _ (readLines _ _ _ (readLines _ 4 _ _))) = _
  rw [native, readLines_foreign path lock.foreign, readLines_packages path lock.packages,
    readLines_edges path lock.edges _ fs.edges]
  · rfl
  · exact fs.packages
  · exact fs.packagesUnique
  · exact fs.foreign
  · exact fs.foreignUnique

/-! ### Round trips -/

theorem PackageLock.Fields.sort (fs : lock.Fields) : lock.sort.Fields :=
  ⟨fs.toEntries.sort, fs.rootName, fs.rootVersion, fs.target⟩

theorem parsePackageLock_fields (path : String) (fs : lock.Fields) :
    parsePackageLock path (renderPackageLock lock)
      = match validateLockGraph lock.sort with
        | some message => { errors := [⟨path, 1, 1, "FDN4027", message⟩] }
        | none => { value := some lock.sort } := by
  obtain ⟨_, read⟩ := readLines_lockLines path fs.sort
  unfold parsePackageLock
  rw [renderPackageLock_eq fs, lines_linesText, read]
  unfold finishLock
  rw [sort_sort]
  rfl

/-- **A valid lock is rendered to a text that parses to its canonical order.** -/
theorem parsePackageLock_render (path : String) (fs : lock.Fields) (graph : lock.GraphValid) :
    parsePackageLock path (renderPackageLock lock) = { value := some lock.sort } := by
  rw [parsePackageLock_fields path fs, validateLockGraph_eq_none.mpr graph.sort]

theorem parsePackageLock_render_rejects (path : String) (fs : lock.Fields)
    (invalid : ¬lock.GraphValid) :
    (parsePackageLock path (renderPackageLock lock)).value = none := by
  rw [parsePackageLock_fields path fs]
  cases outcome : validateLockGraph lock.sort with
  | some => rfl
  | none =>
    have sorted := validateLockGraph_eq_none.mp outcome
    have root : lock.rootName = lock.sort.rootName := rfl
    have packages : lock.packages.Perm lock.sort.packages := (stdSort_perm _ _).symm
    have edges : lock.edges.Perm lock.sort.edges := (stdSort_perm _ _).symm
    exact absurd (sorted.of_perm root packages edges) invalid

/-- **The lock codec round trip.** A lock that was parsed is rendered to a text that is accepted and
parses to it, and rendering what was parsed again gives the same text. -/
theorem parsePackageLock_roundTrip (path source : String) (lock : PackageLock)
    (accepted : (parsePackageLock path source).value = some lock) :
    parsePackageLock path (renderPackageLock lock) = { value := some lock }
      ∧ ∀ again, (parsePackageLock path (renderPackageLock lock)).value = some again →
        renderPackageLock again = renderPackageLock lock := by
  obtain ⟨fields, graph, sorted⟩ := parsePackageLock_accepts accepted
  have back : parsePackageLock path (renderPackageLock lock) = { value := some lock } := by
    rw [parsePackageLock_render path fields graph, sorted]
  refine ⟨back, fun again read => ?_⟩
  rw [back] at read
  cases read
  rfl

/-- A digest of zeros. -/
def sampleDigest : String :=
  "sha256:" ++ String.ofList (replicate 64 '0')

/-- Two packages and two edges, out of order, with a comment and a carriage return. -/
def sampleLockText : String :=
  "format foundation.lock/v1\nroot app 1.0.0-a # comment\ntarget \"linux\"\r\n" ++
  "package b 2.0.0 " ++ sampleDigest ++ " sdk \"std/a b\"\n" ++
  "package a 1.2.0 " ++ sampleDigest ++ " path ../a\nedge app a\nedge a b\n"

theorem parsePackageLock_roundTrip_sample :
    ∃ lock, (parsePackageLock "foundation.lock" sampleLockText).value = some lock
      ∧ lock.packages.map LockedPackage.name = ["a", "b"]
      ∧ lock.edges = [⟨"a", "b", .runtime⟩, ⟨"app", "a", .runtime⟩]
      ∧ parsePackageLock "foundation.lock" (renderPackageLock lock) = { value := some lock } := by
  have accepted : (parsePackageLock "foundation.lock" sampleLockText).value = some
      { rootName := "app", rootVersion := { major := 1, prerelease := ["a"] },
        packages := [⟨"a", { major := 1, minor := 2 }, sampleDigest, .path, "../a"⟩,
          ⟨"b", { major := 2 }, sampleDigest, .sdk, "std/a b"⟩],
        edges := [⟨"a", "b", .runtime⟩, ⟨"app", "a", .runtime⟩] } := by
    decide +kernel
  exact ⟨_, accepted, rfl, rfl,
    (parsePackageLock_roundTrip "foundation.lock" sampleLockText _ accepted).1⟩

end FoundationLang.Package
