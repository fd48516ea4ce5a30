/-
**What the resolver writes, the next build reads.**

The resolver's lock and the lock parser state different rules. Whatever the resolver returns for
manifests that were parsed has valid fields, a connected acyclic graph and the canonical order; the
lock parser asks in addition that no two edges have the same ends. A manifest may depend on one name
at run time on one target and for tests on another, and when both apply the resolver writes an edge
for each.

* `PackageLock.Fields` and `PackageLock.GraphValid` of a resolved lock.
-/

import FoundationLang.Package.ManifestText
import FoundationLang.Package.ResolverComplete

namespace FoundationLang.Package

open Std Relation Library List

variable {candidate : PackageCandidate} {edge : PackageEdge}

/-- The manifest was read from a file. -/
def PackageManifest.Parsed (manifest : PackageManifest) : Prop :=
  ∃ path source, (parsePackageManifest path source).value = some manifest

theorem PackageManifest.Parsed.fields {m : PackageManifest} (parsed : m.Parsed) :
    m.Fields := by
  obtain ⟨_, _, ran⟩ := parsed
  exact (parsePackageManifest_accepts ran).1

/-- The digests that the resolver takes from outside: `Sha256` writes 64 lower-case hexadecimal
digits, and `inspectForeignSource` returns a digest. -/
structure Environment.Digests (environment : Environment) : Prop where
  text : ∀ text, digest ("sha256:" ++ environment.sha256Hex text) = true
  source : ∀ path foreign found, environment.inspectForeign path foreign = .ok found →
    digest found = true

/-- The active dependencies of the root on one name have one scope. -/
def OneScope (root : PackageManifest) (target : TargetPlatform) : Prop :=
  ∀ first ∈ rootDependencies root target, ∀ second ∈ rootDependencies root target,
    first.name = second.name → first.scope = second.scope

section Lock

variable {environment : Environment} {rootManifestPath : String} {root : PackageManifest}
  {sdk : PackageVersion} {target : TargetPlatform} {catalog : List PackageCandidate}
  {state : SolverState} {e : Option Failure}

/-! ### The canonical order of a resolved lock -/

theorem sort_lockGraph (lock : PackageLock) (sorted : lock.sort.foreign = lock.foreign) :
    (lockGraph catalog state lock).lock.sort = (lockGraph catalog state lock).lock := by
  have packages : stdSort (fun left right => compareLocked left right == .lt)
      (lockGraph catalog state lock).lock.packages = (lockGraph catalog state lock).lock.packages := by
    refine stdSort_of_pairwise ?_
    unfold lockGraph selectedCandidates
    rw [pairwise_map]
    refine List.Pairwise.filterMap _ ?_ state.selected.ordered_keys_toList
    intro x y ordered firstEntry firstFound secondEntry secondFound
    rw [Option.map_eq_some_iff] at firstFound secondFound
    obtain ⟨_, _, rfl⟩ := firstFound
    obtain ⟨_, _, rfl⟩ := secondFound
    exact ordered
  have edges : stdSort (fun left right => compareEdge left right == .lt)
      (lockGraph catalog state lock).lock.edges = (lockGraph catalog state lock).lock.edges :=
    stdSort_of_pairwise state.edges.ordered_toList
  unfold PackageLock.sort
  rw [packages, edges]
  show { (lockGraph catalog state lock).lock with foreign := lock.sort.foreign } = _
  rw [sorted]
  rfl

theorem sorted_rootLock : (rootLock environment rootManifestPath root target).1.sort.foreign
    = (rootLock environment rootManifestPath root target).1.foreign :=
  stdSort_stdSort _

/-! ### The fields of a resolved lock -/

theorem lockForeign_ok {foreign : Foreign} {locked : LockedForeign}
    (made : lockForeign environment rootManifestPath foreign = .ok locked) :
    ∃ found, environment.inspectForeign rootManifestPath foreign = .ok found
      ∧ locked = ⟨foreign.ecosystem, foreign.identifier, foreign.version, foreign.kind,
        foreign.resolver, found⟩ := by
  unfold lockForeign at made
  split at made
  · cases made
  · split at made
    · cases made
    · rename_i found inspected
      cases made
      exact ⟨found, inspected, rfl⟩

theorem mem_rootLock_foreign {locked : LockedForeign}
    (mem : locked ∈ (rootLock environment rootManifestPath root target).1.foreign) :
    ∃ foreign ∈ root.foreign, lockForeign environment rootManifestPath foreign = .ok locked := by
  have inside := (stdSort_perm _ _).mem_iff.mp mem
  rw [mem_filterMap] at inside
  obtain ⟨_, present, made⟩ := inside
  obtain ⟨foreign, origin, rfl⟩ := mem_map.mp present
  cases outcome : lockForeign environment rootManifestPath foreign with
  | error =>
    rw [outcome] at made
    cases made
  | ok =>
    rw [outcome] at made
    cases made
    exact ⟨foreign, origin, outcome⟩

theorem rootLock_foreignUnique (unique : (root.foreign.map Foreign.key).Nodup) :
    ((rootLock environment rootManifestPath root target).1.foreign.map LockedForeign.key).Nodup := by
  have sorted : (rootLock environment rootManifestPath root target).1.foreign.Perm
      ((root.foreign.map (lockForeign environment rootManifestPath)).filterMap
        fun result => result.toOption) := stdSort_perm _ _
  refine (sorted.map LockedForeign.key).nodup_iff.mpr ?_
  rw [filterMap_map, List.Nodup, pairwise_map]
  rw [List.Nodup, pairwise_map] at unique
  refine List.Pairwise.filterMap _ ?_ unique
  intro x y apart firstEntry firstMade secondEntry secondMade same
  have entry {foreign : Foreign} {locked : LockedForeign}
      (made : (lockForeign environment rootManifestPath foreign).toOption = some locked) :
      locked.key = foreign.key := by
    cases outcome : lockForeign environment rootManifestPath foreign with
    | error =>
      rw [outcome] at made
      cases made
    | ok =>
      rw [outcome] at made
      cases made
      obtain ⟨_, _, rfl⟩ := lockForeign_ok outcome
      rfl
  exact apart ((entry firstMade).symm.trans (same.trans (entry secondMade)))

end Lock

section Resolved

variable {environment : Environment} {rootManifestPath : String} {root : PackageManifest}
  {sdk : PackageVersion} {target : TargetPlatform} {catalog : List PackageCandidate}
  {resolution : PackageResolution}

section

variable (resolves : Resolves root sdk target catalog resolution)
include resolves

theorem Resolves.selected
    (mem : candidate ∈ resolution.packages) :
    packageNamed resolution.packages candidate.manifest.name = some candidate := by
  unfold packageNamed
  cases found : resolution.packages.find? (·.manifest.name == candidate.manifest.name) with
  | none =>
    have absent := List.find?_eq_none.mp found candidate mem
    exact absurd (beq_iff_eq.mpr rfl) absent
  | some =>
    have named := List.find?_some found
    rw [beq_iff_eq] at named
    rw [inj_on_of_nodup_map resolves.once (mem_of_find?_eq_some found) mem named]

section

variable (rootParsed : root.Parsed)
  (catalogParsed : ∀ candidate ∈ catalog, candidate.manifest.Parsed)
include rootParsed catalogParsed

theorem Resolves.asked
    (mem : candidate ∈ resolution.packages) :
    ∃ dependency : PackageDependency, dependency.Valid ∧ Satisfies sdk candidate dependency := by
  have selected := resolves.selected mem
  have reached := (resolves.needed candidate.manifest.name).mp ⟨candidate, mem, rfl⟩
  generalize candidate.manifest.name = name at selected reached
  cases reached with
  | fromRoot mem =>
    rename_i dependency
    obtain ⟨found, same, satisfies⟩ := resolves.valid.rootDependencies dependency mem
    rw [selected] at same
    cases same
    exact ⟨dependency, rootParsed.fields.dependencies dependency (mem_filter.mp mem).1,
      satisfies⟩
  | fromSelected above chosen mem =>
    rename_i parent parentCandidate dependency
    obtain ⟨_, same, satisfies⟩ :=
      resolves.valid.runtimeDependencies parent parentCandidate chosen dependency mem
    rw [selected] at same
    cases same
    have offered := (resolves.valid.fromCatalog parent parentCandidate chosen).1
    exact ⟨dependency, (catalogParsed parentCandidate offered).fields.dependencies dependency
      (mem_filter.mp mem).1, satisfies⟩

theorem Resolves.edge_names
    (present : edge ∈ resolution.lock.edges) :
    identifier edge.parent = true ∧ identifier edge.dependency = true := by
  have selected := (resolves.edges edge).mp present
  cases selected with
  | fromRoot mem =>
    exact ⟨rootParsed.fields.name,
      (rootParsed.fields.dependencies _ (mem_filter.mp mem).1).name⟩
  | fromSelected chosen mem =>
    obtain ⟨offered, named⟩ := resolves.valid.fromCatalog _ _ chosen
    have fields := (catalogParsed _ offered).fields
    exact ⟨named ▸ fields.name, (fields.dependencies _ (mem_filter.mp mem).1).name⟩

theorem Resolves.package_valid
    (checked : catalog.find? invalidCandidate = none) {package : LockedPackage}
    (mem : package ∈ resolution.lock.packages) : package.Valid := by
  rw [resolves.locked] at mem
  obtain ⟨candidate, present, rfl⟩ := mem_map.mp mem
  obtain ⟨offered, _⟩ := resolves.valid.fromCatalog _ _ (resolves.selected present)
  obtain ⟨_, valid, satisfies⟩ := resolves.asked rootParsed catalogParsed present
  have fields := (catalogParsed candidate offered).fields
  have sound := List.find?_eq_none.mp checked candidate offered
  simp only [invalidCandidate, Bool.or_eq_true, Bool.not_eq_true', not_or, Bool.not_eq_false] at sound
  refine ⟨fields.name, fields.version, sound.1.2, ?_⟩
  have location := valid.location
  rw [satisfies.kind, satisfies.location] at location
  exact location

end

/-- **Every field of a resolved lock is one that the parser accepts**, when the target is known. -/
theorem Resolves.fields
    (digests : environment.Digests) (rootParsed : root.Parsed)
    (catalogParsed : ∀ candidate ∈ catalog, candidate.manifest.Parsed)
    (checked : catalog.find? invalidCandidate = none) (known : target ≠ .unknown)
    (head : resolution.lock = { (rootLock environment rootManifestPath root target).1 with
      packages := resolution.lock.packages, edges := resolution.lock.edges }) :
    resolution.lock.Fields where
  native := by
    intro native present
    rw [head] at present
    have made : (if root.nativeLibrary then
        some ⟨root.nativeName.getD root.name, root.nativeSOVersion,
          nativeDigest environment root target⟩ else none) = some native := present
    split at made
    · cases made
      refine ⟨?_, digests.text _⟩
      cases given : root.nativeName with
      | none => exact rootParsed.fields.name
      | some name => exact rootParsed.fields.nativeName name given
    · cases made
  foreign := by
    intro entry mem
    have inside : entry ∈ (rootLock environment rootManifestPath root target).1.foreign := by
      rw [head] at mem
      exact mem
    obtain ⟨foreign, origin, made⟩ := mem_rootLock_foreign inside
    obtain ⟨_, inspected, rfl⟩ := lockForeign_ok made
    have valid := rootParsed.fields.foreign foreign origin
    exact ⟨valid.ecosystem, valid.identifier, valid.version, valid.kind, valid.resolver,
      digests.source _ _ _ inspected⟩
  foreignUnique := by
    have unique : ((rootLock environment rootManifestPath root target).1.foreign.map
        LockedForeign.key).Nodup := rootLock_foreignUnique rootParsed.fields.foreignUnique
    rw [head]
    exact unique
  packages := fun _ mem => resolves.package_valid rootParsed catalogParsed checked mem
  packagesUnique := by
    rw [resolves.locked, List.map_map]
    exact resolves.once
  edges := fun _ mem => resolves.edge_names rootParsed catalogParsed mem
  rootName := by
    rw [head]
    exact rootParsed.fields.name
  rootVersion := by
    rw [head]
    exact rootParsed.fields.version
  target := by
    rw [head]
    exact known

end

/-! ### The graph of a resolved lock -/

section

variable (resolves : Resolves root sdk target catalog resolution)
include resolves

theorem Resolves.depends_eq :
    resolution.lock.Depends = Leads root target (packageNamed resolution.packages) := by
  funext parent dep
  exact propext (exists_congr fun scope => resolves.edges _)

theorem Resolves.names_iff (name : String) :
    resolution.lock.Names name ↔ ∃ candidate ∈ resolution.packages, candidate.manifest.name = name := by
  unfold PackageLock.Names
  rw [resolves.locked]
  simp

theorem Resolves.ne_root {name : String}
    (named : resolution.lock.Names name) : name ≠ root.name := by
  rintro rfl
  have reached := (resolves.needed _).mp ((resolves.names_iff _).mp named)
  exact resolves.valid.acyclic _ reached.transGen

theorem Resolves.named_of_selected
    {name : String} (selected : packageNamed resolution.packages name = some candidate) :
    resolution.lock.Names name := by
  refine (resolves.names_iff name).mpr ⟨candidate, mem_of_find?_eq_some selected, ?_⟩
  exact (resolves.valid.fromCatalog name candidate selected).2

end

theorem SelectedEdge.origin {selection : Selection}
    (selected : SelectedEdge root target selection edge) :
    (edge.parent = root.name ∧ ∃ dep ∈ rootDependencies root target,
        dep.name = edge.dependency ∧ dep.scope = edge.scope)
      ∨ ∃ candidate, selection edge.parent = some candidate ∧ .runtime = edge.scope := by
  cases selected with
  | fromRoot mem => exact .inl ⟨rfl, _, mem, rfl, rfl⟩
  | fromSelected chosen => exact .inr ⟨_, chosen, rfl⟩

/-- **Two edges with the same ends are two active dependencies of the root with two scopes.** -/
theorem Resolves.ends_nodup_iff (resolves : Resolves root sdk target catalog resolution)
    (distinct : resolution.lock.edges.Nodup) :
    (resolution.lock.edges.map PackageEdge.ends).Nodup ↔ OneScope root target := by
  rw [nodup_map_iff_inj_on distinct]
  constructor
  · intro inj x one y two same
    have edge := inj _ ((resolves.edges _).mpr (.fromRoot one)) _
      ((resolves.edges _).mpr (.fromRoot two)) (by simp [PackageEdge.ends, same])
    exact (PackageEdge.mk.inj edge).2.2
  · intro oneScope left one right two same
    obtain ⟨_, _, _⟩ := left
    obtain ⟨_, _, _⟩ := right
    obtain ⟨parents, deps⟩ := Prod.mk.inj same
    simp only at parents deps
    subst parents deps
    have below {candidate : PackageCandidate} {name : String}
        (chosen : packageNamed resolution.packages name = some candidate) : name ≠ root.name :=
      resolves.ne_root (resolves.named_of_selected chosen)
    rcases ((resolves.edges _).mp one).origin with ⟨top, x, mem, named, rfl⟩ | ⟨_, chosen, rfl⟩
    · rcases ((resolves.edges _).mp two).origin with
        ⟨_, y, z, alike, rfl⟩ | ⟨_, chosen, _⟩
      · rw [oneScope x mem y z (named.trans alike.symm)]
      · exact absurd top (below chosen)
    · rcases ((resolves.edges _).mp two).origin with ⟨top, _⟩ | ⟨_, _, rfl⟩
      · exact absurd top (below chosen)
      · rfl

theorem Resolves.edge_dependency (resolves : Resolves root sdk target catalog resolution)
    (present : edge ∈ resolution.lock.edges) : resolution.lock.Names edge.dependency := by
  have selected := (resolves.edges edge).mp present
  cases selected with
  | fromRoot mem =>
    obtain ⟨candidate, found, _⟩ := resolves.valid.rootDependencies _ mem
    exact resolves.named_of_selected found
  | fromSelected chosen mem =>
    obtain ⟨_, found, _⟩ := resolves.valid.runtimeDependencies _ _ chosen _ mem
    exact resolves.named_of_selected found

/-- **The graph of a resolved lock is one that the parser accepts**, when no two edges have the same
ends. -/
theorem Resolves.graphValid (resolves : Resolves root sdk target catalog resolution)
    (rootName : resolution.lock.rootName = root.name)
    (located : ∀ package ∈ resolution.lock.packages,
      validLocation package.kind package.location = true)
    (unique : (resolution.lock.edges.map PackageEdge.ends).Nodup) :
    resolution.lock.GraphValid where
  identity := by
    intro package mem
    rw [rootName]
    exact ⟨resolves.ne_root ⟨package, mem, rfl⟩, located package mem⟩
  parents := by
    intro edge mem
    rw [rootName]
    rcases ((resolves.edges edge).mp mem).origin with ⟨top, _⟩ | ⟨candidate, chosen, _⟩
    · exact .inl top
    · exact .inr (resolves.named_of_selected chosen)
  dependencies := fun _ => resolves.edge_dependency
  scopes := by
    intro edge mem test
    rw [rootName]
    rcases ((resolves.edges edge).mp mem).origin with ⟨top, _⟩ | ⟨_, _, runtime⟩
    · exact top
    · rw [test] at runtime
      cases runtime
  unique := unique
  reachable := by
    intro package mem
    rw [rootName, resolves.depends_eq]
    have reached := (resolves.needed _).mp ((resolves.names_iff _).mp ⟨package, mem, rfl⟩)
    exact reached.transGen.to_reflTransGen
  acyclic := resolves.acyclic

end Resolved

/-! ### Reading a resolved lock -/

/-- **The resolver's lock and the lock parser agree up to one rule.** For a root and a catalog of
parsed manifests, the lock that the resolver returns is rendered to a text that parses to it exactly
when the target is a known one and the active dependencies of the root on one name have one scope. -/
theorem resolvePackageGraph_readable (environment : Environment) (rootManifestPath lockPath : String)
    (root : PackageManifest) (sdk : PackageVersion) (target : TargetPlatform)
    (catalog : List PackageCandidate) (result : PackageParseResult PackageResolution)
    (resolution : PackageResolution) (digests : environment.Digests) (rootParsed : root.Parsed)
    (catalogParsed : ∀ candidate ∈ catalog, candidate.manifest.Parsed)
    (returned : resolvePackageGraph environment rootManifestPath root sdk target catalog
      = some result)
    (value : result.value = some resolution) :
    parsePackageLock lockPath (renderPackageLock resolution.lock)
        = { value := some resolution.lock }
      ↔ target ≠ .unknown ∧ OneScope root target := by
  obtain ⟨checked, _, state, _, solved, rfl⟩ := resolvePackageGraph_value returned value
  have resolves := solveRoot_resolves solved (rootLock environment rootManifestPath root target).1
  have distinct : state.edges.toList.Nodup :=
    state.edges.ordered_toList.imp fun {left right} ordered same => by
      have self : compareEdge right right = .eq := ReflCmp.compare_self
      rw [same, self] at ordered
      cases ordered
  constructor
  · intro read
    have accepted : (parsePackageLock lockPath (renderPackageLock _)).value = _ :=
      congrArg PackageParseResult.value read
    obtain ⟨fields, graph, _⟩ := parsePackageLock_accepts accepted
    exact ⟨fields.target, (resolves.ends_nodup_iff distinct).mp graph.unique⟩
  · rintro ⟨known, oneScope⟩
    have fields := resolves.fields digests rootParsed catalogParsed checked known rfl
    have graph := resolves.graphValid rfl (fun package mem => (fields.packages package mem).location)
      ((resolves.ends_nodup_iff distinct).mpr oneScope)
    rw [parsePackageLock_render lockPath fields graph, sort_lockGraph _ sorted_rootLock]

/-- The manifest of a package without dependencies. -/
def leafText : String :=
  "format foundation.package/v1\nname a\nversion 1.0.0\nlanguage 1\nsource s\n"

/-- A root with a dependency at run time. -/
def runtimeText : String :=
  "format foundation.package/v1\nname app\nversion 1.0.0\nlanguage 1\nsource s\n" ++
    "dependency a * registry r\n"

/-- A root that on Linux also depends on the same package for its tests. -/
def bothScopesText : String :=
  "format foundation.package/v1\nname app\nversion 1.0.0\nlanguage 1\nsource s\n" ++
    "test_source t\ndependency a * registry r\ndependency a * registry r target linux scope test\n"

/-- A package without dependencies. -/
def leafManifest : PackageManifest where
  name := "a"
  version := { major := 1 }
  languageExplicit := true
  sdk := ⟨.any, {}⟩
  source := "s"

/-- A root that needs it at run time. -/
def runtimeManifest : PackageManifest where
  name := "app"
  version := { major := 1 }
  languageExplicit := true
  sdk := ⟨.any, {}⟩
  source := "s"
  dependencies := [{ name := "a", requirement := ⟨.any, {}⟩, location := "r" }]

/-- A root that needs it at run time and for its tests. -/
def bothScopesManifest : PackageManifest where
  name := "app"
  version := { major := 1 }
  languageExplicit := true
  sdk := ⟨.any, {}⟩
  source := "s"
  testSource := some "t"
  dependencies := [{ name := "a", requirement := ⟨.any, {}⟩, location := "r" },
    { name := "a", requirement := ⟨.any, {}⟩, location := "r", target := some .linux, scope := .test }]

/-- Its candidate in a catalog. -/
def leafCandidate : PackageCandidate where
  manifest := leafManifest
  digest := "sha256:0000000000000000000000000000000000000000000000000000000000000000"
  location := "r"

/-- Digests of zeros: the samples have neither a native library nor foreign sources. -/
def zeroEnvironment : Environment where
  sha256Hex := fun _ => "0000000000000000000000000000000000000000000000000000000000000000"
  inspectForeign := fun _ _ => .error []

theorem digests_zeroEnvironment : zeroEnvironment.Digests where
  text := by
    intro text
    show digest ("sha256:" ++
      "0000000000000000000000000000000000000000000000000000000000000000") = true
    decide
  source := by
    intro path foreign found inspected
    cases inspected

theorem leafManifest_parsed : leafManifest.Parsed :=
  ⟨"p", leafText, by decide +kernel⟩

theorem runtimeManifest_parsed : runtimeManifest.Parsed :=
  ⟨"p", runtimeText, by decide +kernel⟩

theorem bothScopesManifest_parsed : bothScopesManifest.Parsed :=
  ⟨"p", bothScopesText, by decide +kernel⟩

theorem catalog_parsed : ∀ candidate ∈ [leafCandidate], candidate.manifest.Parsed := by
  intro candidate mem
  rw [mem_singleton.mp mem]
  exact leafManifest_parsed

/-- The lock of a root with some edges to `a`. -/
def leafResolution (edges : List PackageEdge) : PackageResolution where
  lock := {
    rootName := "app"
    rootVersion := { major := 1 }
    packages := [⟨"a", { major := 1 }, leafCandidate.digest, .registry, "r"⟩]
    edges := edges }
  packages := [leafCandidate]

theorem resolvePackageGraph_readable_sample :
    parsePackageLock "foundation.lock" (renderPackageLock (leafResolution [⟨"app", "a", .runtime⟩]).lock)
      = { value := some (leafResolution [⟨"app", "a", .runtime⟩]).lock } := by
  have returned : resolvePackageGraph zeroEnvironment "p" runtimeManifest {} .linux [leafCandidate]
      = some { value := some (leafResolution [⟨"app", "a", .runtime⟩]) } := by
    decide +kernel
  refine (resolvePackageGraph_readable zeroEnvironment "p" "foundation.lock" runtimeManifest
    {} .linux [leafCandidate] _ _ digests_zeroEnvironment runtimeManifest_parsed catalog_parsed
    returned rfl).mpr ⟨by decide, ?_⟩
  unfold OneScope
  decide

/-- **A lock that the resolver writes and the parser rejects**: two edges from the root to `a`. -/
theorem resolvePackageGraph_unreadable :
    bothScopesManifest.Parsed ∧ (∀ candidate ∈ [leafCandidate], candidate.manifest.Parsed)
      ∧ zeroEnvironment.Digests ∧ ∃ resolution : PackageResolution,
        resolvePackageGraph zeroEnvironment "p" bothScopesManifest {} .linux [leafCandidate]
          = some { value := some resolution }
        ∧ (parsePackageLock "foundation.lock" (renderPackageLock resolution.lock)).value = none := by
  have returned : resolvePackageGraph zeroEnvironment "p" bothScopesManifest {} .linux [leafCandidate]
      = some { value := some (leafResolution [⟨"app", "a", .runtime⟩, ⟨"app", "a", .test⟩]) } := by
    decide +kernel
  refine ⟨bothScopesManifest_parsed, catalog_parsed, digests_zeroEnvironment, _, returned, ?_⟩
  obtain ⟨checked, _, _, _, solved, same⟩ := resolvePackageGraph_value returned rfl
  have resolves := solveRoot_resolves solved (rootLock zeroEnvironment "p" bothScopesManifest .linux).1
  rw [← same] at resolves
  have fields := resolves.fields digests_zeroEnvironment bothScopesManifest_parsed catalog_parsed
    checked (by decide) (by rw [same]; rfl)
  refine parsePackageLock_render_rejects "foundation.lock" fields fun graph => ?_
  have twice : ¬([⟨"app", "a", .runtime⟩, ⟨"app", "a", .test⟩].map PackageEdge.ends).Nodup := by
    decide
  exact twice graph.unique

end FoundationLang.Package
