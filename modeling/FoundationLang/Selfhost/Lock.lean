/-
**The lock file of the self-hosted compiler.**

`package_lock.fn`, with the functions of `package_text.fn`, `package_manifest.fn`,
`package_collection.fn` and `std.path` that it calls. The lexical part is the one of the bootstrap
compiler with other blanks and another way to write a byte (`isPackageSpace`, `writeCodePoint`).

The slices of lines and bare tokens are never refused (`LineReads`); those of versions are those of
`package_version.fn`. The arena of nodes is a list, and a node that is taken out of its slot and put
back is changed in place.
-/

import FoundationLang.Library.Rounds
import FoundationLang.Package.Lock
import FoundationLang.Selfhost.Version

namespace FoundationLang.Selfhost

open Package

/-! ### Tokens -/

/-- The blanks of a line. -/
def isPackageSpace (byte : Char) : Bool :=
  byte == ' ' || byte == '\t' || byte == '\n' || byte == '\r'

/-- `WriteCodePoint` on the value of a byte: from 0x80 on that is a code point of two bytes. -/
def writeCodePoint (byte : Char) : List Char :=
  (utf8 (String.singleton byte)).toList

/-- The tokens of one line, or the column and the text of an error. -/
def tokenizePackageLine (line : String) : Except (Nat × String) (List String) :=
  tokenizeWith isPackageSpace writeCodePoint line

/-- A text as one token. -/
def quotePackageText (value : String) : String :=
  quoteWith isPackageSpace writeCodePoint value

/-! ### Words of the format

These are the functions of the bootstrap compiler, byte for byte. -/

/-- A package name. -/
abbrev isValidPackageName (value : String) : Bool :=
  identifier value

/-- `sha256:` and 64 lower-case digits. -/
abbrev validPackageDigest (value : String) : Bool :=
  digest value

/-- The target that a word names. -/
abbrev parseTargetPlatformText (value : String) : Option TargetPlatform :=
  parseTargetPlatform value

/-- The kind of location that a word names. -/
abbrev packageLocationKindFor (value : String) : Option PackageLocationKind :=
  locationKind value

/-! ### Paths -/

/-- `path.IsAbsolute`, where the separator is a slash. -/
def isAbsolute (value : String) : Bool :=
  value.toList.head? == some '/'

/-- `appendSegment`, for a path without a root. -/
def appendSegment (current segment : String) : String :=
  if current = "" ∨ current = "." then segment
  else if current.toList.getLast? ≠ some '/' then current ++ "/" ++ segment
  else current ++ segment

/-- `removeLastSegment`, for a path without a root. -/
def removeLastSegment (current : String) : String :=
  if current = "" ∨ current = "." then current
  else
    match current.toList.reverse.dropWhile (· ≠ '/') with
    | [] | [_] => "."
    | _ :: before => String.ofList before.reverse

/-- The last segment is `..`. -/
def isParentSegment (value : String) : Bool :=
  value == ".." || ['/', '.', '.'].isSuffixOf value.toList

/-- One segment of a path without a root. -/
def normalizeSegment (result segment : String) : String :=
  if segment = "." then result
  else if segment = ".." then
    if result ≠ "" ∧ result ≠ "." ∧ isParentSegment result = false then removeLastSegment result
    else appendSegment result segment
  else appendSegment result segment

/-- `path.Normalize`, for a path without a root. -/
def normalizePath (value : String) : String :=
  let result := ((pathPieces value).filter (· ≠ "")).foldl normalizeSegment ""
  if result = "" then "." else result

/-- A path that stays below its root. -/
def relativePackageSource (value : String) : Bool :=
  !value.isEmpty && !isAbsolute value && normalizePath value != "." &&
    ((normalizePath value).toList.splitOnP fun byte => byte == '/' || byte == '\\').all
      (· != ['.', '.'])

/-- What a location of each kind looks like. -/
def validPackageLocation (kind : PackageLocationKind) (value : String) : Bool :=
  if value.isEmpty || value.toList.any fun byte => byte.toNat < 32 then false
  else
    match kind with
    | .registry => isValidPackageName value
    | .path => !isAbsolute value
    | .sdk => relativePackageSource value

/-! ### Locks -/

/-- A package of a lock. -/
structure LockedPackage where
  name : String
  version : PackageVersion
  digest : String
  kind : PackageLocationKind
  location : String
deriving DecidableEq, Repr, Inhabited

/-- A lock; prereleases and build metadata are texts. -/
structure PackageLock where
  rootName : String := ""
  rootVersion : PackageVersion := {}
  target : TargetPlatform := .linux
  nativeLibrary : Option LockedNativeLibrary := none
  foreign : List LockedForeign := []
  packages : List LockedPackage := []
  edges : List PackageEdge := []
deriving DecidableEq, Repr, Inhabited

/-! ### Directives -/

/-- The variables of `parsePackageLock`. -/
structure LockReader where
  lock : PackageLock := {}
  formatSeen : Bool := false
  rootSeen : Bool := false
  targetSeen : Bool := false
  nativeSeen : Bool := false
  errors : List PackageError := []
deriving DecidableEq, Repr, Inhabited

/-- What a directive makes of the lock, or the code and the text of its error. -/
abbrev LockEntry := Except (String × String) PackageLock

/-- `format`. -/
def formatEntry (reader : LockReader) (arguments : List String) : LockEntry :=
  if arguments = ["foundation.lock/v1"] ∧ reader.formatSeen = false then .ok reader.lock
  else .error ("FDN4020", "expected one format foundation.lock/v1 directive")

/-- `root NAME VERSION`. -/
def rootEntry (reader : LockReader) (arguments : List String) : Checked LockEntry :=
  let error := ("FDN4021", "expected one root package and version")
  match arguments with
  | [name, versionText] => do
    match ← parsePackageVersion versionText with
    | some version =>
      if isValidPackageName name && !reader.rootSeen then
        return .ok { reader.lock with rootName := name, rootVersion := version }
      else return .error error
    | none => return .error error
  | _ => some (.error error)

/-- `target PLATFORM`. -/
def targetEntry (reader : LockReader) (arguments : List String) : LockEntry :=
  let error := ("FDN4022", "expected one target linux, macos, windows, or freestanding")
  match arguments with
  | [target] =>
    match parseTargetPlatformText target with
    | some target =>
      if reader.targetSeen then .error error else .ok { reader.lock with target := target }
    | none => .error error
  | _ => .error error

/-- The SOVERSION of `parseLockedNative`. -/
def lockedSOVersion (text : String) : Option (Option UInt32) :=
  if text = "-" then some none
  else
    match parsePackageNumber text with
    | none => none
    | some value =>
      if value.toNat > 4294967295 then none else some (some (UInt32.ofNat value.toNat))

/-- `native c NAME SOVERSION DIGEST`. -/
def parseLockedNative (reader : LockReader) (arguments : List String) : LockEntry :=
  let error := ("FDN4028", "invalid native library lock entry")
  match arguments with
  | [kind, name, soText, digestText] =>
    match lockedSOVersion soText with
    | some soVersion =>
      if kind == "c" && isValidPackageName name && validPackageDigest digestText && !reader.nativeSeen then
        .ok { reader.lock with nativeLibrary := some ⟨name, soVersion, digestText⟩ }
      else .error error
    | none => .error error
  | _ => .error error

/-- `foreign …`, with the ABI and the digest. -/
def parseLockedForeign (lock : PackageLock) (arguments : List String) : LockEntry :=
  let error := ("FDN4029", "invalid foreign provenance lock entry")
  match arguments with
  | [ecosystem, name, version, kind, resolver, abi, level, digestText] =>
    if foreignEcosystem ecosystem && !name.isEmpty && !version.isEmpty && foreignKind kind &&
        !resolver.isEmpty && abi == "abi" && level == "c/v1" && validPackageDigest digestText &&
        !lock.foreign.any (fun entry => entry.ecosystem == ecosystem && entry.identifier == name)
    then .ok { lock with
      foreign := lock.foreign ++ [⟨ecosystem, name, version, kind, resolver, digestText⟩] }
    else .error error
  | _ => .error error

/-- `package NAME VERSION DIGEST KIND LOCATION`. -/
def parseLockedPackage (lock : PackageLock) (arguments : List String) : Checked LockEntry :=
  let error := ("FDN4023", "invalid locked package")
  match arguments with
  | [name, versionText, digestText, kindText, location] => do
    match ← parsePackageVersion versionText, packageLocationKindFor kindText with
    | some version, some kind =>
      if isValidPackageName name && validPackageDigest digestText && validPackageLocation kind location then
        if lock.packages.any (·.name == name) then
          return .error ("FDN4024", "duplicate locked package " ++ name)
        else return .ok { lock with
          packages := lock.packages ++ [⟨name, version, digestText, kind, location⟩] }
      else return .error error
    | _, _ => return .error error
  | _ => some (.error error)

/-- `parseLockedEdge`. Here an edge that is there already is an error of its line. -/
def parseLockedEdge (lock : PackageLock) (arguments : List String) : LockEntry :=
  let error := ("FDN4025", "invalid package edge")
  match arguments with
  | parent :: dependency :: qualifiers =>
    match parseScope qualifiers with
    | some scope =>
      if isValidPackageName parent && isValidPackageName dependency &&
          !lock.edges.any (fun edge => edge.parent == parent && edge.dependency == dependency) then
        .ok { lock with edges := lock.edges ++ [⟨parent, dependency, scope⟩] }
      else .error error
    | none => .error error
  | _ => .error error

/-- An error of one line. -/
def LockReader.report (reader : LockReader) (error : PackageError) : LockReader :=
  { reader with errors := reader.errors ++ [error] }

/-- The lock a directive made, or its error. -/
def LockReader.accept (reader : LockReader) (path : String) (line : Nat) (entry : LockEntry) :
    LockReader :=
  match entry with
  | .ok lock => { reader with lock := lock }
  | .error (code, message) => reader.report ⟨path, line, 1, code, message⟩

/-- The directives of `parsePackageLock`. -/
def lockDirective (path directive : String) (arguments : List String) (line : Nat)
    (reader : LockReader) : Checked LockReader :=
  if directive = "format" then
    some { reader.accept path line (formatEntry reader arguments) with formatSeen := true }
  else if directive = "root" then
    (rootEntry reader arguments).map fun entry =>
      { reader.accept path line entry with rootSeen := true }
  else if directive = "target" then
    some { reader.accept path line (targetEntry reader arguments) with targetSeen := true }
  else if directive = "native" then
    some { reader.accept path line (parseLockedNative reader arguments) with nativeSeen := true }
  else if directive = "foreign" then
    some (reader.accept path line (parseLockedForeign reader.lock arguments))
  else if directive = "package" then
    (parseLockedPackage reader.lock arguments).map (reader.accept path line)
  else if directive = "edge" then
    some (reader.accept path line (parseLockedEdge reader.lock arguments))
  else some (reader.report ⟨path, line, 1, "FDN4026", "unknown lock directive " ++ directive⟩)

/-! ### The graph of a lock -/

/-- A name, the number of edges into it, and what the loops did with it. -/
structure LockNode where
  name : String
  incoming : Nat := 0
  reached : Bool := false
  removed : Bool := false
deriving DecidableEq, Repr, Inhabited

/-- `findLockNode` and the node it finds. -/
def findLockNode (nodes : List LockNode) (name : String) : Option LockNode :=
  nodes.find? (·.name == name)

/-- The first node of a name, changed in its slot; no such node is a panic. -/
def changeNode (name : String) (change : LockNode → LockNode) :
    List LockNode → Checked (List LockNode)
  | [] => none
  | node :: rest =>
    if node.name == name then some (change node :: rest)
    else (changeNode name change rest).map (node :: ·)

/-- The loop over the edges that counts them, or the text of an error. -/
def countEdges (rootName : String) (nodes : List LockNode) :
    List PackageEdge → Checked (Except String (List LockNode))
  | [] => some (.ok nodes)
  | edge :: rest => do
    if edge.parent = edge.dependency then return .error "lock contains a package cycle"
    if (findLockNode nodes edge.parent).isNone || (findLockNode nodes edge.dependency).isNone ||
        (edge.scope == .test && edge.parent != rootName) then
      return .error "lock contains an unknown or duplicate package edge"
    let nodes ← changeNode edge.dependency (fun node => { node with incoming := node.incoming + 1 })
      nodes
    countEdges rootName nodes rest

/-- One edge of the loop that looks for the reachable packages; the flag is `changed`. -/
def reachEdge (state : List LockNode × Bool) (edge : PackageEdge) : Checked (List LockNode × Bool) := do
  let parent ← findLockNode state.1 edge.parent
  let dependency ← findLockNode state.1 edge.dependency
  if parent.reached && !dependency.reached then
    let nodes ← changeNode edge.dependency (fun node => { node with reached := true }) state.1
    return (nodes, true)
  return state

/-- The loop that looks for the reachable packages; it never runs out of fuel. -/
def reachNodes (edges : List PackageEdge) : Nat → List LockNode → Checked (List LockNode)
  | 0, _ => none
  | fuel + 1, nodes => do
    let (nodes, changed) ← edges.foldlM reachEdge (nodes, false)
    if changed then reachNodes edges fuel nodes else return nodes

/-- The variables of the loop that removes packages. -/
structure Removal where
  nodes : List LockNode
  visited : Nat := 0
  changed : Bool := false
deriving DecidableEq, Repr, Inhabited

/-- An edge of a removed package is taken away. -/
def releaseEdge (name : String) (nodes : List LockNode) (edge : PackageEdge) :
    Checked (List LockNode) :=
  if edge.parent = name then
    changeNode edge.dependency (fun node => { node with incoming := node.incoming - 1 }) nodes
  else some nodes

/-- One slot of the loop that removes packages. -/
def removeNode (edges : List PackageEdge) (state : Removal) (index : Nat) : Checked Removal := do
  let node ← state.nodes[index]?
  if !node.removed && node.incoming == 0 then
    let nodes ← edges.foldlM (releaseEdge node.name)
      (state.nodes.set index { node with removed := true })
    return { nodes := nodes, visited := state.visited + 1, changed := true }
  return state

/-- The loop that removes packages: how many it removes. It never runs out of fuel. -/
def removeNodes (edges : List PackageEdge) : Nat → Removal → Checked Nat
  | 0, _ => none
  | fuel + 1, state => do
    let state ← (List.range state.nodes.length).foldlM (removeNode edges)
      { state with changed := false }
    if state.changed then removeNodes edges fuel state else return state.visited

/-- The nodes of `validatePackageLockGraph`: the root, which is reached, and the packages. -/
def lockNodes (lock : PackageLock) : List LockNode :=
  { name := lock.rootName, reached := true } ::
    lock.packages.map fun package => { name := package.name }

/-- The loops of `validatePackageLockGraph` over the edges: the text of the error, if there is one. -/
def checkGraph (rootName : String) (edges : List PackageEdge) (nodes : List LockNode) :
    Checked (Option String) := do
  match ← countEdges rootName nodes edges with
  | .error message => return some message
  | .ok nodes =>
    let nodes ← reachNodes edges (nodes.length + 1) nodes
    if nodes.any fun node => !node.reached then
      return some "lock contains a package unreachable from the root"
    let visited ← removeNodes edges (nodes.length + 1) { nodes := nodes }
    if visited ≠ nodes.length then return some "lock contains a package cycle"
    return none

/-- `validatePackageLockGraph`: the text of the error, if there is one. -/
def validatePackageLockGraph (lock : PackageLock) : Checked (Option String) :=
  if lock.packages.any fun package =>
      package.name == lock.rootName || !validPackageLocation package.kind package.location then
    some (some "locked package has an invalid source identity")
  else checkGraph lock.rootName lock.edges (lockNodes lock)

/-! ### Parsing -/

/-- One value of `sortArena`, moved to the left past the greater ones; the list has the values before
it, the last one first. -/
def sinkValue {α : Type} (cmp : α → α → Ordering) (value : α) : List α → List α
  | [] => [value]
  | left :: rest =>
    if cmp left value = .gt then left :: sinkValue cmp value rest else value :: left :: rest

/-- The sort of the lists of a lock. -/
def sortArena {α : Type} (cmp : α → α → Ordering) (values : List α) : List α :=
  (values.foldl (fun sorted value => sinkValue cmp value sorted) []).reverse

theorem sinkValue_perm {α : Type} {cmp : α → α → Ordering} (v : α) (sorted : List α) :
    (sinkValue cmp v sorted).Perm (v :: sorted) := by
  induction sorted with
  | nil => exact .refl _
  | cons left rest ih =>
    rw [sinkValue]
    split
    · exact (ih.cons left).trans (.swap v left rest)
    · exact .refl _

theorem sortArena_perm {α : Type} {cmp : α → α → Ordering} (values : List α) :
    (sortArena cmp values).Perm values := by
  have fold : ∀ (values sorted : List α),
      (values.foldl (fun sorted v => sinkValue cmp v sorted) sorted).Perm
        (values ++ sorted) := by
    intro values
    induction values with
    | nil => exact fun _ => .refl _
    | cons v rest ih =>
      intro sorted
      refine (ih _).trans ?_
      exact ((sinkValue_perm v sorted).append_left rest).trans List.perm_middle
  have whole := fold values []
  rw [List.append_nil] at whole
  exact (List.reverse_perm _).trans whole

/-- By name. -/
def compareLockedPackage (left right : LockedPackage) : Ordering :=
  compare left.name right.name

/-- By parent, dependency and scope. -/
def comparePackageEdge (left right : PackageEdge) : Ordering :=
  (compare left.parent right.parent).then <|
    (compare left.dependency right.dependency).then <|
      if (left.scope == .test) == (right.scope == .test) then .eq
      else if left.scope == .test then .gt else .lt

/-- By all fields, one after the other. -/
def compareLockedForeign (left right : LockedForeign) : Ordering :=
  (compare left.ecosystem right.ecosystem).then <|
    (compare left.identifier right.identifier).then <|
      (compare left.version right.version).then <|
        (compare left.kind right.kind).then <|
          (compare left.resolver right.resolver).then (compare left.digest right.digest)

/-- The lists of a lock in their order. -/
def PackageLock.sort (lock : PackageLock) : PackageLock :=
  { lock with
    packages := sortArena compareLockedPackage lock.packages
    edges := sortArena comparePackageEdge lock.edges
    foreign := sortArena compareLockedForeign lock.foreign }

/-- The errors of a lock without a directive that it must have. -/
def missingDirectives (path : String) (reader : LockReader) : List PackageError :=
  (if reader.formatSeen then [] else [⟨path, 1, 1, "FDN4020", "missing lock format directive"⟩]) ++
  (if reader.rootSeen then [] else [⟨path, 1, 1, "FDN4021", "missing root package"⟩]) ++
  (if reader.targetSeen then [] else [⟨path, 1, 1, "FDN4022", "missing lock target"⟩])

/-- The end of `parsePackageLock`, after the last line. -/
def finishLock (path : String) (reader : LockReader) : Checked (PackageParseResult PackageLock) := do
  let errors := reader.errors ++ missingDirectives path reader
  if errors.isEmpty then
    match ← validatePackageLockGraph reader.lock with
    | some message => return { errors := [⟨path, 1, 1, "FDN4027", message⟩] }
    | none => return { value := some reader.lock.sort }
  else return { errors := errors }

/-- The parser of a lock, which may panic (`none`). -/
def parsePackageLock (path source : String) : Checked (PackageParseResult PackageLock) := do
  let reader ← linesWith tokenizePackageLine
    (fun state error => state.map (LockReader.report · error))
    (fun directive arguments line state => state.bind (lockDirective path directive arguments line))
    path source (some {})
  finishLock path reader

/-! ### Rendering -/

/-- The text of a version. -/
def packageVersionString (version : PackageVersion) : String :=
  let core := toString version.major.toNat ++ "." ++ toString version.minor.toNat ++ "." ++
    toString version.patch.toNat
  let core := if version.prerelease.isEmpty then core else core ++ "-" ++ version.prerelease
  if version.build.isEmpty then core else core ++ "+" ++ version.build

/-- The line of a native library. -/
def renderNative (library : LockedNativeLibrary) : String :=
  "native c " ++ library.name ++ " " ++ renderSOVersion library.soVersion ++ " " ++ library.digest
    ++ "\n"

/-- The line of a foreign entry. -/
def renderForeign (entry : LockedForeign) : String :=
  "foreign " ++ quotePackageText entry.ecosystem ++ " " ++ quotePackageText entry.identifier ++ " " ++
    quotePackageText entry.version ++ " " ++ entry.kind ++ " " ++ quotePackageText entry.resolver ++
    " abi c/v1 " ++ entry.digest ++ "\n"

/-- The line of a package. -/
def renderLocked (package : LockedPackage) : String :=
  "package " ++ package.name ++ " " ++ packageVersionString package.version ++ " " ++
    package.digest ++ " " ++ locationName package.kind ++ " " ++
    quotePackageText package.location ++ "\n"

/-- The text of a lock. -/
def renderPackageLock (lock : PackageLock) : String :=
  "format foundation.lock/v1\n" ++
  "root " ++ lock.rootName ++ " " ++ packageVersionString lock.rootVersion ++ "\n" ++
  "target " ++ targetPlatformName lock.target ++ "\n" ++
  (match lock.nativeLibrary with
    | some native => renderNative native
    | none => "") ++
  String.join (lock.sort.foreign.map renderForeign) ++
  String.join (lock.sort.packages.map renderLocked) ++
  String.join (lock.sort.edges.map renderEdge)

end FoundationLang.Selfhost
