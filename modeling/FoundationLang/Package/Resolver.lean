/-
**The package resolver.**

`package_resolver.cpp` as it computes: a recursive backtracking search over a `SolverState` that is
copied at every choice, with one optional `Failure` shared by the whole search.

`std::map` and `std::set` are `Std.TreeMap` and `Std.TreeSet` under the source's orders. A function
that mutates its argument and returns a `bool` returns the new state as an option instead. Where the
source dereferences the shared failure without looking, `resolvePackageGraph` has no value (`none`):
the behaviour of an empty `std::optional` there is undefined.
-/

import FoundationLang.Package.Manifest
import Mathlib.Data.List.Sort
import Std.Data.TreeSet

namespace FoundationLang.Package

open Std

/-- The number of packages of a resolution. -/
def maxResolvedPackages : Nat := 4096

/-- The number of candidates of a catalog. -/
def maxCatalogCandidates : Nat := 65536

/-- The length of a path of dependencies. -/
def maxDependencyDepth : Nat := 256

/-- `digestHex`: `sha256:` and 64 lower-case hexadecimal digits. -/
def digestHex (digest : String) : Bool :=
  let characters := digest.toList
  characters.length == 71 && characters.take 7 == "sha256:".toList &&
    (characters.drop 7).all fun character =>
      ('0' ≤ character && character ≤ '9') || ('a' ≤ character && character ≤ 'f')

/-! ### Solver state -/

/-- `Constraint`: a dependency together with the names on the way to it from the root. -/
structure Constraint where
  dependency : PackageDependency
  path : List String
deriving DecidableEq, Repr, Inhabited

/-- The order of `std::tuple<std::string, std::string, PackageDependencyScope>`. -/
def compareEdge : PackageEdge → PackageEdge → Ordering :=
  compareLex (compareOn (·.parent))
    (compareLex (compareOn (·.dependency)) (compareOn (·.scope.rank)))

/-- What is known at one point of the search. -/
structure SolverState where
  constraints : TreeMap String (List Constraint) := ∅
  selected : TreeMap String Nat := ∅
  edges : TreeSet PackageEdge compareEdge := ∅

/-- Why the search gave up. -/
structure Failure where
  code : String
  message : String
deriving DecidableEq, Repr, Inhabited

/-- `state.constraints[name]` read as a value. -/
def SolverState.constraintsOf (state : SolverState) (name : String) : List Constraint :=
  (state.constraints[name]?).getD []

/-- `constraints[dependency.name].push_back({dependency, path})` and the edge that goes with it. -/
def SolverState.require (state : SolverState) (parent : String) (dependency : PackageDependency)
    (path : List String) (scope : PackageDependencyScope) : SolverState :=
  { state with
    constraints := state.constraints.alter dependency.name fun previous =>
      some (previous.getD [] ++ [⟨dependency, path⟩])
    edges := state.edges.insert ⟨parent, dependency.name, scope⟩ }

/-- `rememberFailure`: only the first failure is kept. -/
def rememberFailure (failure : Option Failure) (next : Failure) : Option Failure :=
  match failure with
  | some first => some first
  | none => some next

/-! ### Messages -/

/-- The word for a kind of location. -/
def locationName : PackageLocationKind → String
  | .path => "path"
  | .registry => "registry"
  | .sdk => "sdk"

/-- `pathText`. As in `join`, the separator is guarded by the text so far being empty. -/
def pathText (path : List String) : String :=
  path.foldl (fun result part => (if result.isEmpty then result else result ++ " -> ") ++ part) ""

/-- All constraints of a name, with the paths that led to them. -/
def conflictMessage (name : String) (constraints : List Constraint) : String :=
  constraints.foldl (fun output constraint => output ++ "; " ++ pathText constraint.path ++
    " requires " ++ constraint.dependency.requirement.string ++ " from " ++
    locationName constraint.dependency.kind ++ " " ++ constraint.dependency.location)
    ("cannot resolve package " ++ name)

/-- The failure of a name that no candidate matches. -/
def conflictFailure (name : String) (constraints : List Constraint) : Failure :=
  ⟨"FDN4052", conflictMessage name constraints⟩

/-- The report of a cycle. -/
def cycleFailure (cycle : List String) : Failure :=
  ⟨"FDN4054", "package dependency cycle: " ++ pathText cycle⟩

/-- The failure of a graph with too many packages. -/
def sizeFailure : Failure :=
  ⟨"FDN4055", "package graph exceeds 4096 packages"⟩

/-- The failure of a graph with too long a dependency path. -/
def depthFailure : Failure :=
  ⟨"FDN4055", "package graph exceeds dependency depth 256"⟩

/-! ### Cycles of the edge set -/

/-- The marks of the depth-first search: `0`, `1` and `2` in the source. -/
inductive Mark
  | unseen | active | done
deriving DecidableEq, Repr, Inhabited

/-- `graph`: the dependencies of each node in the order of the edge set; every node is a key. -/
def edgeGraph (edges : TreeSet PackageEdge compareEdge) : TreeMap String (List String) :=
  edges.toList.foldl (fun graph edge =>
    (graph.alter edge.parent fun known => some (known.getD [] ++ [edge.dependency])).alter
      edge.dependency fun known => some (known.getD [])) ∅

/-- `state[name]`: an absent entry is created with mark `0`. -/
def markOf (marks : TreeMap String Mark) (name : String) : Mark :=
  (marks[name]?).getD .unseen

/-- The loop of `visit` over the dependencies of a node, with the stack already extended by it.
`Except.error` is the cycle found (`visit` returned true), `Except.ok` the marks otherwise. -/
def visitDependencies (visit : String → TreeMap String Mark → Except (List String) (TreeMap String Mark))
    (stack : List String) :
    List String → TreeMap String Mark → Except (List String) (TreeMap String Mark)
  | [], marks => .ok marks
  | dependency :: rest, marks => do
    let marks ← if markOf marks dependency = .unseen then visit dependency marks else .ok marks
    if markOf marks dependency = .active then
      .error (stack.dropWhile (· != dependency) ++ [dependency])
    else visitDependencies visit stack rest marks

/-- `visit`. The fuel bounds the nesting: every level marks one more node as active. -/
def visit (graph : TreeMap String (List String)) :
    Nat → List String → String → TreeMap String Mark → Except (List String) (TreeMap String Mark)
  | 0, _, _, marks => .ok marks
  | fuel + 1, stack, name, marks => do
    let marks ← visitDependencies (visit graph fuel (stack ++ [name])) (stack ++ [name])
      ((graph[name]?).getD []) (marks.insert name .active)
    .ok (marks.insert name .done)

/-- The outer loop of `dependencyCycle`, over the nodes in name order. -/
def visitAll (graph : TreeMap String (List String)) :
    List String → TreeMap String Mark → Except (List String) (TreeMap String Mark)
  | [], marks => .ok marks
  | name :: rest, marks => do
    let marks ← if markOf marks name = .unseen then visit graph graph.size [] name marks
      else .ok marks
    visitAll graph rest marks

/-- The depth-first search that names a cycle of the edge set. -/
def dependencyCycle (edges : TreeSet PackageEdge compareEdge) : Option (List String) :=
  match visitAll (edgeGraph edges) (edgeGraph edges).keys ∅ with
  | .error cycle => some cycle
  | .ok _ => none

/-! ### The search -/

/-- `matches`: the candidate accepts the SDK and meets every constraint. -/
def matchesAll (candidate : PackageCandidate) (constraints : List Constraint)
    (sdk : PackageVersion) : Bool :=
  candidate.manifest.sdk.accepts sdk && constraints.all fun constraint =>
    constraint.dependency.requirement.accepts candidate.manifest.version &&
      constraint.dependency.kind == candidate.kind &&
      constraint.dependency.location == candidate.location

/-- `std::sort` under a strict order. -/
def stdSort {α : Type} (less : α → α → Bool) (values : List α) : List α :=
  values.insertionSort fun left right => less right left = false

/-- The order of the choices: higher versions first, then location and digest. -/
def choiceLess (left right : PackageCandidate) : Bool :=
  if left.manifest.version ≠ right.manifest.version then
    left.manifest.version.compareVersion right.manifest.version == .gt
  else
    (compare left.location right.location).then (compare left.digest right.digest) == .lt

/-- `choices`: the catalog entries of a name that meet its constraints, in the order of trial, each
with its index. -/
def choices (catalog : List PackageCandidate) (sdk : PackageVersion) (name : String)
    (constraints : List Constraint) : List (PackageCandidate × Nat) :=
  stdSort (fun left right => choiceLess left.1 right.1) <|
    catalog.zipIdx.filter fun entry =>
      entry.1.manifest.name == name && matchesAll entry.1 constraints sdk

/-- The smaller of two paths, the first one on a tie: the step of `std::min_element`. -/
def minPath (best next : List String) : List String :=
  if compareTexts next best = .lt then next else best

/-- `origin->path`: the least path among the constraints of a name. -/
def originPath : List Constraint → List String
  | [] => []
  | constraint :: rest => rest.foldl (fun best next => minPath best next.path) constraint.path

/-- The loop over the dependencies of a chosen manifest. `Except.error` carries the failure that is
remembered when the choice is abandoned. -/
def addDependencies (target : TargetPlatform) (parent : String) (origin : List String) :
    List PackageDependency → SolverState → Except Failure SolverState
  | [], next => .ok next
  | dependency :: rest, next =>
    if !active dependency target || dependency.scope == .test then
      addDependencies target parent origin rest next
    else if origin.length = maxDependencyDepth then .error depthFailure
    else if dependency.name ∈ origin then .error (cycleFailure (origin ++ [dependency.name]))
    else addDependencies target parent origin rest
      (next.require parent dependency (origin ++ [dependency.name]) .runtime)

/-- Every selected candidate against the constraints on its name. -/
def selectionMatches (catalog : List PackageCandidate) (sdk : PackageVersion)
    (state : SolverState) : Bool :=
  state.selected.toList.all fun entry =>
    match catalog[entry.2]? with
    | some candidate => matchesAll candidate (state.constraintsOf entry.1) sdk
    | none => false

/-- The first constrained name without a selection. -/
def unresolved (state : SolverState) : Option (String × List Constraint) :=
  state.constraints.toList.find? fun entry => !state.selected.contains entry.1

/-- The outcome of one choice before the recursive call: the failure it leaves behind, or the state
to search on, or neither when the new constraints contradict an earlier selection. -/
def choose (catalog : List PackageCandidate) (sdk : PackageVersion) (target : TargetPlatform)
    (state : SolverState) (name : String) (constraints : List Constraint)
    (choice : PackageCandidate × Nat) : Except (Option Failure) SolverState :=
  match addDependencies target name (originPath constraints) choice.1.manifest.dependencies
      { state with selected := state.selected.insertIfNew name choice.2 } with
  | .error failure => .error (some failure)
  | .ok next => if selectionMatches catalog sdk next then .ok next else .error none

/-- The loop over the choices; `recur` is the recursive call of `solve`. -/
def tryChoices (choose : PackageCandidate × Nat → Except (Option Failure) SolverState)
    (recur : SolverState → Option Failure → Option SolverState × Option Failure) :
    List (PackageCandidate × Nat) → Option Failure → Option SolverState × Option Failure
  | [], failure => (none, failure)
  | choice :: rest, failure =>
    match choose choice with
    | .error (some next) => tryChoices choose recur rest (rememberFailure failure next)
    | .error none => tryChoices choose recur rest failure
    | .ok next =>
      match recur next failure with
      | (some final, failure) => (some final, failure)
      | (none, failure) => tryChoices choose recur rest failure

/-- `solve`: the final state when it returns true, and the shared failure. The fuel is never used
up: each level selects one more name, and the size check stops the search before it runs out. -/
def solve (catalog : List PackageCandidate) (sdk : PackageVersion) (target : TargetPlatform) :
    Nat → SolverState → Option Failure → Option SolverState × Option Failure
  | 0, _, failure => (none, failure)
  | fuel + 1, state, failure =>
    match unresolved state with
    | none =>
      match dependencyCycle state.edges with
      | some cycle => (none, rememberFailure failure (cycleFailure cycle))
      | none => (some state, failure)
    | some (name, constraints) =>
      if state.selected.size = maxResolvedPackages then
        (none, rememberFailure failure sizeFailure)
      else
        match choices catalog sdk name constraints with
        | [] => (none, rememberFailure failure (conflictFailure name constraints))
        | choice :: rest =>
          tryChoices (choose catalog sdk target state name constraints)
            (solve catalog sdk target fuel) (choice :: rest) failure

/-! ### The root call -/

/-- What the resolver takes from outside: the digest of a text, and the inspection of a foreign
source directory, whose errors all carry `FDN4057`. -/
structure Environment where
  sha256Hex : String → String
  inspectForeign : String → Foreign → Except (List (String × String)) String

/-- The digest of the native library of the root. -/
def nativeDigest (environment : Environment) (manifest : PackageManifest)
    (target : TargetPlatform) : String :=
  "sha256:" ++ environment.sha256Hex ("foundation.native-library/v1\n" ++
    manifest.nativeName.getD manifest.name ++ "\n" ++
    (match manifest.nativeSOVersion with
      | some version => toString version.toNat
      | none => "-") ++ "\n" ++ targetPlatformName target ++ "\n")

/-- One foreign entry of the root manifest: its locked form, or the errors. -/
def lockForeign (environment : Environment) (rootManifestPath : String) (foreign : Foreign) :
    Except (List PackageError) LockedForeign :=
  if foreign.kind ≠ "path" then
    .error [⟨rootManifestPath, 1, 1, "FDN4057", "foreign resolver kind " ++ foreign.kind ++
      " is not supported; Foundation 1.0 accepts path resolvers"⟩]
  else
    match environment.inspectForeign rootManifestPath foreign with
    | .error messages => .error (messages.map fun entry => ⟨entry.1, 1, 1, "FDN4057", entry.2⟩)
    | .ok digest => .ok ⟨foreign.ecosystem, foreign.identifier, foreign.version, foreign.kind,
        foreign.resolver, digest⟩

/-- The order in which locked foreign entries are written. -/
def foreignLess (left right : LockedForeign) : Bool :=
  compareTexts
    [left.ecosystem, left.identifier, left.version, left.kind, left.resolver, left.digest]
    [right.ecosystem, right.identifier, right.version, right.kind, right.resolver, right.digest]
      == .lt

/-- `lockRootPackageMetadata`: the native and foreign parts of the lock, and the errors. -/
def lockRootPackageMetadata (environment : Environment) (lock : PackageLock)
    (manifest : PackageManifest) (target : TargetPlatform) (rootManifestPath : String) :
    PackageLock × List PackageError :=
  let results := manifest.foreign.map (lockForeign environment rootManifestPath)
  let locked := results.filterMap fun result => result.toOption
  let errors := results.flatMap fun result =>
    match result with
    | .error errors => errors
    | .ok _ => []
  ({ lock with
    nativeLibrary := if manifest.nativeLibrary then
        some ⟨manifest.nativeName.getD manifest.name, manifest.nativeSOVersion,
          nativeDigest environment manifest target⟩
      else none
    foreign := stdSort foreignLess locked }, errors)

/-- A candidate that no catalog may hold. -/
def invalidCandidate (candidate : PackageCandidate) : Bool :=
  candidate.manifest.name.isEmpty || !digestHex candidate.digest || candidate.location.isEmpty

/-- The order of the catalog. -/
def compareCandidate (left right : PackageCandidate) : Ordering :=
  (compare left.manifest.name right.manifest.name).then <|
    (left.manifest.version.compareVersion right.manifest.version).then <|
      (compare left.kind.rank right.kind.rank).then <|
        (compare left.location right.location).then (compare left.digest right.digest)

/-- Two candidates of a catalog that nothing tells apart. -/
def duplicateCandidate (left right : PackageCandidate) : Bool :=
  left.manifest.name == right.manifest.name && left.manifest.version == right.manifest.version &&
    left.kind == right.kind && left.location == right.location

/-- `std::adjacent_find`: the first element related to its successor. -/
def adjacentFind {α : Type} (related : α → α → Bool) : List α → Option α
  | first :: second :: rest =>
    if related first second then some first else adjacentFind related (second :: rest)
  | _ => none

/-- The catalog as the search sees it. -/
def sortCatalog (catalog : List PackageCandidate) : List PackageCandidate :=
  stdSort (fun left right => compareCandidate left right == .lt) catalog

/-- The state the search starts from: the active dependencies of the root, test scope included. -/
def rootState (root : PackageManifest) (target : TargetPlatform) : SolverState :=
  (root.dependencies.filter (active · target)).foldl (fun state dependency =>
    state.require root.name dependency [root.name, dependency.name] dependency.scope) {}

/-- The call of `solve` that `resolvePackageGraph` makes. -/
def solveRoot (root : PackageManifest) (sdk : PackageVersion) (target : TargetPlatform)
    (catalog : List PackageCandidate) : Option SolverState × Option Failure :=
  solve catalog sdk target (maxResolvedPackages + 1) (rootState root target) none

/-- The candidates of the final state in name order, each with the name it was selected for. -/
def selectedCandidates (catalog : List PackageCandidate) (state : SolverState) :
    List (String × PackageCandidate) :=
  state.selected.toList.filterMap fun entry => (catalog[entry.2]?).map fun candidate =>
    (entry.1, candidate)

/-- The lock of a finished search. -/
def lockGraph (catalog : List PackageCandidate) (state : SolverState) (lock : PackageLock) :
    PackageResolution where
  lock := { lock with
    packages := (selectedCandidates catalog state).map fun entry =>
      ⟨entry.1, entry.2.manifest.version, entry.2.digest, entry.2.kind, entry.2.location⟩
    edges := state.edges.toList }
  packages := (selectedCandidates catalog state).map (·.2)

/-- `resolvePackageGraph`. `none` stands for the dereference of an empty failure. -/
def resolvePackageGraph (environment : Environment) (rootManifestPath : String)
    (root : PackageManifest) (sdk : PackageVersion) (target : TargetPlatform)
    (inputCatalog : List PackageCandidate) : Option (PackageParseResult PackageResolution) :=
  if !root.sdk.accepts sdk then
    some { errors := [⟨rootManifestPath, 1, 1, "FDN4050", "SDK " ++ sdk.string ++
      " does not satisfy root requirement " ++ root.sdk.string⟩] }
  else if maxCatalogCandidates < inputCatalog.length then
    some { errors := [⟨rootManifestPath, 1, 1, "FDN4055",
      "package catalog exceeds 65536 candidates"⟩] }
  else
    match inputCatalog.find? invalidCandidate with
    | some invalid =>
      some { errors := [⟨rootManifestPath, 1, 1, "FDN4051",
        "invalid package candidate " ++ invalid.manifest.name⟩] }
    | none =>
      let catalog := sortCatalog inputCatalog
      match adjacentFind duplicateCandidate catalog with
      | some duplicate =>
        some { errors := [⟨rootManifestPath, 1, 1, "FDN4053", "duplicate package candidate " ++
          duplicate.manifest.name ++ " " ++ duplicate.manifest.version.string ++ " from " ++
          locationName duplicate.kind ++ " " ++ duplicate.location⟩] }
      | none =>
        match solveRoot root sdk target catalog with
        | (none, none) => none
        | (none, some failure) =>
          some { errors := [⟨rootManifestPath, 1, 1, failure.code, failure.message⟩] }
        | (some state, _) =>
          let metadata := lockRootPackageMetadata environment
            { rootName := root.name, rootVersion := root.version, target := target } root target
            rootManifestPath
          if metadata.2.isEmpty then some { value := some (lockGraph catalog state metadata.1) }
          else some { errors := metadata.2 }

end FoundationLang.Package
