/-
**The lock file.**

`parsePackageLock`, `validateLockGraph` and `renderPackageLock` of `package.cpp`. The lambda that
handles a line becomes `lockDirective` on a `LockReader`, which holds the variables the lambda
captures; each directive is one function from its arguments to the new lock, or to the code and the
text of its error.

The maps of `validateLockGraph` are read with `operator[]` only, so they are functions here: the
successors of a name, none for a name without edges, and the count of edges into it.
-/

import FoundationLang.Library.Worklist
import FoundationLang.Package.Path

namespace FoundationLang.Package

open Library

/-! ### Words of the format -/

/-- The platform that a word names. -/
def parseTargetPlatform (value : String) : Option TargetPlatform :=
  if value = "linux" then some .linux
  else if value = "macos" then some .macOS
  else if value = "windows" then some .windows
  else if value = "freestanding" then some .freestanding
  else none

/-- The kind of location that a word names. -/
def locationKind (value : String) : Option PackageLocationKind :=
  if value = "path" then some .path
  else if value = "registry" then some .registry
  else if value = "sdk" then some .sdk
  else none

/-- The ecosystems a foreign entry may name. -/
def foreignEcosystem (value : String) : Bool :=
  value == "c" || value == "zig" || value == "rust" || value == "go"

/-- The resolver kinds a foreign entry may name. -/
def foreignKind (value : String) : Bool :=
  value == "path" || value == "registry" || value == "system"

/-- A number that fits a `std::uint32_t`. -/
def number32 (text : String) : Option UInt32 := do
  let value ← number text
  if value.toNat < 2 ^ 32 then some (UInt32.ofNat value.toNat) else none

/-! ### Directives -/

/-- The variables that the lambda of `parsePackageLock` captures. -/
structure LockReader where
  lock : PackageLock := { rootName := "", rootVersion := {} }
  formatSeen : Bool := false
  rootSeen : Bool := false
  targetSeen : Bool := false
  nativeSeen : Bool := false
  errors : List PackageError := []
deriving DecidableEq, Repr, Inhabited

/-- What a directive makes of the lock, or the code and the text of its error. -/
abbrev LockEntry := Except (String × String) PackageLock

/-- `format`. -/
def formatEntry (reader : LockReader) (arguments : List String) : LockEntry :=
  if arguments = ["foundation.lock/v1"] ∧ reader.formatSeen = false then .ok reader.lock
  else .error ("FDN4020", "expected one format foundation.lock/v1 directive")

/-- `root NAME VERSION`. -/
def rootEntry (reader : LockReader) (arguments : List String) : LockEntry :=
  let error := ("FDN4021", "expected one root package and version")
  match arguments with
  | [name, version] =>
    match parsePackageVersion version with
    | some version =>
      if identifier name && !reader.rootSeen then
        .ok { reader.lock with rootName := name, rootVersion := version }
      else .error error
    | none => .error error
  | _ => .error error

/-- `target PLATFORM`. -/
def targetEntry (reader : LockReader) (arguments : List String) : LockEntry :=
  let error := ("FDN4022", "expected one target linux, macos, windows, or freestanding")
  match arguments with
  | [target] =>
    match parseTargetPlatform target with
    | some target =>
      if reader.targetSeen then .error error else .ok { reader.lock with target := target }
    | none => .error error
  | _ => .error error

/-- The SOVERSION of a native library; a hyphen stands for none. -/
def parseSOVersion (text : String) : Option (Option UInt32) :=
  if text = "-" then some none else (number32 text).map some

/-- `native c NAME SOVERSION DIGEST`. -/
def nativeEntry (reader : LockReader) (arguments : List String) : LockEntry :=
  let error := ("FDN4028", "invalid native library lock entry")
  match arguments with
  | [kind, name, version, digestText] =>
    match parseSOVersion version with
    | some version =>
      if kind == "c" && identifier name && digest digestText && !reader.nativeSeen then
        .ok { reader.lock with nativeLibrary := some ⟨name, version, digestText⟩ }
      else .error error
    | none => .error error
  | _ => .error error

/-- `foreign ECOSYSTEM IDENTIFIER VERSION KIND RESOLVER abi c/v1 DIGEST`. -/
def foreignEntry (lock : PackageLock) (arguments : List String) : LockEntry :=
  let error := ("FDN4029", "invalid foreign provenance lock entry")
  match arguments with
  | [ecosystem, name, version, kind, resolver, abi, level, digestText] =>
    if foreignEcosystem ecosystem && !name.isEmpty && !version.isEmpty && foreignKind kind &&
        !resolver.isEmpty && abi == "abi" && level == "c/v1" && digest digestText &&
        !lock.foreign.any (fun entry => entry.ecosystem == ecosystem && entry.identifier == name)
    then .ok { lock with
      foreign := lock.foreign ++ [⟨ecosystem, name, version, kind, resolver, digestText⟩] }
    else .error error
  | _ => .error error

/-- `package NAME VERSION DIGEST KIND LOCATION`. -/
def packageEntry (lock : PackageLock) (arguments : List String) : LockEntry :=
  let error := ("FDN4023", "invalid locked package")
  match arguments with
  | [name, version, digestText, kind, location] =>
    match parsePackageVersion version, locationKind kind with
    | some version, some kind =>
      if identifier name && digest digestText && validLocation kind location then
        if lock.packages.any (·.name == name) then
          .error ("FDN4024", "duplicate locked package " ++ name)
        else .ok { lock with
          packages := lock.packages ++ [⟨name, version, digestText, kind, location⟩] }
      else .error error
    | _, _ => .error error
  | _ => .error error

/-- The scope behind an edge: nothing, or `scope test`. -/
def parseScope (arguments : List String) : Option PackageDependencyScope :=
  if arguments = [] then some .runtime
  else if arguments = ["scope", "test"] then some .test
  else none

/-- `edge PARENT DEPENDENCY [scope test]`. -/
def edgeEntry (lock : PackageLock) (arguments : List String) : LockEntry :=
  let error := ("FDN4025", "invalid package edge")
  match arguments with
  | parent :: dependency :: qualifiers =>
    match parseScope qualifiers with
    | some scope =>
      if identifier parent && identifier dependency then
        .ok { lock with edges := lock.edges ++ [⟨parent, dependency, scope⟩] }
      else .error error
    | none => .error error
  | _ => .error error

/-- An error of one line. -/
def LockReader.report (reader : LockReader) (error : PackageError) : LockReader :=
  { reader with errors := reader.errors ++ [error] }

/-- The lock a directive made, or its error. -/
def LockReader.accept (reader : LockReader) (path : String) (line : Nat) (entry : LockEntry) :
    LockReader :=
  match entry with
  | .ok lock => { reader with lock := lock }
  | .error (code, message) => reader.report ⟨path, line, 1, code, message⟩

/-- The lambda of `parsePackageLock`. -/
def lockDirective (path directive : String) (arguments : List String) (line : Nat)
    (reader : LockReader) : LockReader :=
  if directive = "format" then
    { reader.accept path line (formatEntry reader arguments) with formatSeen := true }
  else if directive = "root" then
    { reader.accept path line (rootEntry reader arguments) with rootSeen := true }
  else if directive = "target" then
    { reader.accept path line (targetEntry reader arguments) with targetSeen := true }
  else if directive = "native" then
    { reader.accept path line (nativeEntry reader arguments) with nativeSeen := true }
  else if directive = "foreign" then
    reader.accept path line (foreignEntry reader.lock arguments)
  else if directive = "package" then
    reader.accept path line (packageEntry reader.lock arguments)
  else if directive = "edge" then reader.accept path line (edgeEntry reader.lock arguments)
  else reader.report ⟨path, line, 1, "FDN4026", "unknown lock directive " ++ directive⟩

/-! ### The graph of a lock -/

/-- `packages`: the names of the locked packages. -/
def PackageLock.names (lock : PackageLock) : List String :=
  (lock.packages.map (·.name)).dedup

/-- `graph`: the dependencies of a name, in the order of the edges. -/
def PackageLock.successors (lock : PackageLock) (name : String) : List String :=
  (lock.edges.filter (·.parent == name)).map (·.dependency)

/-- `incoming`: the number of edges into a name. -/
def PackageLock.incoming (lock : PackageLock) (name : String) : Nat :=
  lock.edges.countP (·.dependency == name)

/-- The loop over the edges; `unique` is the set `uniqueEdges`. -/
def checkEdges (lock : PackageLock) : List (String × String) → List PackageEdge → Bool
  | _, [] => true
  | unique, edge :: rest =>
    if (edge.parent != lock.rootName && !lock.names.contains edge.parent) ||
        !lock.names.contains edge.dependency ||
        (edge.scope == .test && edge.parent != lock.rootName) ||
        unique.contains (edge.parent, edge.dependency) then false
    else checkEdges lock ((edge.parent, edge.dependency) :: unique) rest

/-- The names without incoming edges, in the order in which they are pushed. -/
def PackageLock.sources (lock : PackageLock) : List String :=
  (stdSort (fun left right => compare left right == .lt) (lock.rootName :: lock.names)).filter
    (lock.incoming · == 0)

/-- `validateLockGraph`: the text of the error, if there is one. -/
def validateLockGraph (lock : PackageLock) : Option String :=
  if lock.packages.any fun package =>
      package.name == lock.rootName || !validLocation package.kind package.location then
    some "locked package has an invalid source identity"
  else if !checkEdges lock [] lock.edges then
    some "lock contains an unknown or duplicate package edge"
  else if (reachFrom lock.successors (lock.edges.length + 1) [lock.rootName] []).length
      ≠ lock.names.length + 1 then
    some "lock contains a package unreachable from the root"
  else if (removeSources lock.successors (lock.names.length + 1) lock.incoming
      lock.sources.reverse []).length ≠ lock.names.length + 1 then
    some "lock contains a package cycle"
  else none

/-! ### Parsing -/

/-- By name. -/
def compareLocked (left right : LockedPackage) : Ordering :=
  compare left.name right.name

/-- The order of the locked foreign entries. -/
def compareForeign (left right : LockedForeign) : Ordering :=
  compareTexts
    [left.ecosystem, left.identifier, left.version, left.kind, left.resolver, left.digest]
    [right.ecosystem, right.identifier, right.version, right.kind, right.resolver, right.digest]

/-- The canonical order of a lock. -/
def PackageLock.sort (lock : PackageLock) : PackageLock :=
  { lock with
    packages := stdSort (fun left right => compareLocked left right == .lt) lock.packages
    edges := stdSort (fun left right => compareEdge left right == .lt) lock.edges
    foreign := stdSort (fun left right => compareForeign left right == .lt) lock.foreign }

/-- The errors of a lock without a directive that it must have. -/
def missingDirectives (path : String) (reader : LockReader) : List PackageError :=
  (if reader.formatSeen then [] else [⟨path, 1, 1, "FDN4020", "missing lock format directive"⟩]) ++
  (if reader.rootSeen then [] else [⟨path, 1, 1, "FDN4021", "missing root package"⟩]) ++
  (if reader.targetSeen then [] else [⟨path, 1, 1, "FDN4022", "missing lock target"⟩])

/-- The end of `parsePackageLock`, after the last line. -/
def finishLock (path : String) (reader : LockReader) : PackageParseResult PackageLock :=
  let errors := reader.errors ++ missingDirectives path reader
  if errors.isEmpty then
    match validateLockGraph reader.lock with
    | some message => { errors := [⟨path, 1, 1, "FDN4027", message⟩] }
    | none => { value := some reader.lock.sort }
  else { errors := errors }

/-- The lock of a text, or the errors of its lines and its graph. -/
def parsePackageLock (path source : String) : PackageParseResult PackageLock :=
  finishLock path (lines LockReader.report (lockDirective path) path source {})

/-! ### Rendering -/

/-- The SOVERSION of a native library as it is written. -/
def renderSOVersion (version : Option UInt32) : String :=
  match version with
  | some version => toString version.toNat
  | none => "-"

/-- The line of a locked native library. -/
def renderNative (library : LockedNativeLibrary) : String :=
  "native c " ++ library.name ++ " " ++ renderSOVersion library.soVersion ++ " " ++ library.digest
    ++ "\n"

/-- The line of a locked foreign entry. -/
def renderForeign (entry : LockedForeign) : String :=
  "foreign " ++ quote entry.ecosystem ++ " " ++ quote entry.identifier ++ " " ++
    quote entry.version ++ " " ++ entry.kind ++ " " ++ quote entry.resolver ++ " abi c/v1 " ++
    entry.digest ++ "\n"

/-- The line of a locked package. -/
def renderLocked (package : LockedPackage) : String :=
  "package " ++ package.name ++ " " ++ package.version.string ++ " " ++ package.digest ++ " " ++
    locationName package.kind ++ " " ++ quote package.location ++ "\n"

/-- The line of an edge. -/
def renderEdge (edge : PackageEdge) : String :=
  "edge " ++ edge.parent ++ " " ++ edge.dependency ++
    (if edge.scope = .test then " scope test" else "") ++ "\n"

/-- The text of a lock. -/
def renderPackageLock (lock : PackageLock) : String :=
  "format foundation.lock/v1\n" ++
  "root " ++ lock.rootName ++ " " ++ lock.rootVersion.string ++ "\n" ++
  "target " ++ targetPlatformName lock.target ++ "\n" ++
  (match lock.nativeLibrary with
    | some native => renderNative native
    | none => "") ++
  String.join (lock.sort.foreign.map renderForeign) ++
  String.join (lock.sort.packages.map renderLocked) ++
  String.join (lock.sort.edges.map renderEdge)

end FoundationLang.Package
