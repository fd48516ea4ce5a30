/-
**What a package resolution is.**

The abstract side of the resolver, without a search: a *selection* assigns to a package name at
most one catalog candidate.
-/

import FoundationLang.Library.Acyclic
import FoundationLang.Package.Resolver
import Mathlib.Data.List.Perm.Subperm

namespace FoundationLang.Package

open Library List

variable {target : TargetPlatform} {root : PackageManifest} {catalog : List PackageCandidate}

/-! ### Dependencies -/

/-- The dependencies of the root on a target, those of its tests included. -/
def rootDependencies (root : PackageManifest) (target : TargetPlatform) : List PackageDependency :=
  root.dependencies.filter (active · target)

/-- The active dependencies of a package below the root: those of test scope are left out. -/
def runtimeDependencies (manifest : PackageManifest) (target : TargetPlatform) :
    List PackageDependency :=
  manifest.dependencies.filter fun dependency =>
    active dependency target && dependency.scope != .test

/-- The candidate is one that the dependency accepts, and itself accepts the SDK. -/
structure Satisfies (sdk : PackageVersion) (candidate : PackageCandidate)
    (dependency : PackageDependency) : Prop where
  name : candidate.manifest.name = dependency.name
  version : dependency.requirement.accepts candidate.manifest.version = true
  kind : dependency.kind = candidate.kind
  location : dependency.location = candidate.location
  sdk : candidate.manifest.sdk.accepts sdk = true

/-! ### Selections -/

/-- At most one candidate for each name. -/
abbrev Selection := String → Option PackageCandidate

/-- **The edges of a selection.** -/
inductive SelectedEdge (root : PackageManifest) (target : TargetPlatform) (selection : Selection) :
    PackageEdge → Prop
  | fromRoot {dependency : PackageDependency} (member : dependency ∈ rootDependencies root target) :
    SelectedEdge root target selection ⟨root.name, dependency.name, dependency.scope⟩
  | fromSelected {parent : String} {candidate : PackageCandidate} {dependency : PackageDependency}
    (selected : selection parent = some candidate)
    (member : dependency ∈ runtimeDependencies candidate.manifest target) :
    SelectedEdge root target selection ⟨parent, dependency.name, .runtime⟩

/-- An edge of the selection, in some scope. -/
def Leads (root : PackageManifest) (target : TargetPlatform) (selection : Selection)
    (parent dependency : String) : Prop :=
  ∃ scope, SelectedEdge root target selection ⟨parent, dependency, scope⟩

/-- **The names a selection needs**: those of the root's dependencies, and those that the candidates
of such names depend on. -/
inductive Reached (root : PackageManifest) (target : TargetPlatform) (selection : Selection) :
    String → Prop
  | fromRoot {dependency : PackageDependency} (member : dependency ∈ rootDependencies root target) :
    Reached root target selection dependency.name
  | fromSelected {parent : String} {candidate : PackageCandidate} {dependency : PackageDependency}
    (reached : Reached root target selection parent)
    (selected : selection parent = some candidate)
    (member : dependency ∈ runtimeDependencies candidate.manifest target) :
    Reached root target selection dependency.name

/-- **A selection that resolves the root.** -/
structure ValidSelection (root : PackageManifest) (sdk : PackageVersion) (target : TargetPlatform)
    (catalog : List PackageCandidate) (selection : Selection) : Prop where
  fromCatalog : ∀ name candidate, selection name = some candidate →
    candidate ∈ catalog ∧ candidate.manifest.name = name
  rootDependencies : ∀ dependency ∈ rootDependencies root target,
    ∃ candidate, selection dependency.name = some candidate ∧ Satisfies sdk candidate dependency
  runtimeDependencies : ∀ name parent, selection name = some parent →
    ∀ dependency ∈ runtimeDependencies parent.manifest target,
      ∃ candidate, selection dependency.name = some candidate ∧ Satisfies sdk candidate dependency
  acyclic : Acyclic (Leads root target selection)

theorem SelectedEdge.mono {smaller larger : Selection} {edge : PackageEdge}
    (included : ∀ name candidate, smaller name = some candidate → larger name = some candidate)
    (mem : SelectedEdge root target smaller edge) : SelectedEdge root target larger edge := by
  cases mem with
  | fromRoot mem => exact .fromRoot mem
  | fromSelected selected mem => exact .fromSelected (included _ _ selected) mem

theorem Reached.mono {smaller larger : Selection} {name : String}
    (included : ∀ name candidate, smaller name = some candidate → larger name = some candidate)
    (reached : Reached root target smaller name) : Reached root target larger name := by
  induction reached with
  | fromRoot mem => exact .fromRoot mem
  | fromSelected _ selected mem ih =>
    exact .fromSelected ih (included _ _ selected) mem

/-! ### Limits -/

/-- An active dependency that some candidate of the catalog may bring in. -/
inductive CatalogEdge (root : PackageManifest) (target : TargetPlatform)
    (catalog : List PackageCandidate) : String → String → Prop
  | fromRoot {dependency : PackageDependency} (member : dependency ∈ rootDependencies root target) :
    CatalogEdge root target catalog root.name dependency.name
  | fromCandidate {candidate : PackageCandidate} {dependency : PackageDependency}
    (offered : candidate ∈ catalog)
    (member : dependency ∈ runtimeDependencies candidate.manifest target) :
    CatalogEdge root target catalog candidate.manifest.name dependency.name

/-- **The catalog stays below the limits of the resolver**: whatever candidates are chosen, no more
than `maxResolvedPackages` of its names are needed, and no path of dependencies without repetition is longer
than `maxDependencyDepth`. -/
structure WithinLimits (root : PackageManifest) (target : TargetPlatform)
    (catalog : List PackageCandidate) : Prop where
  size : ∀ names : List String, names.Nodup →
    (∀ name ∈ names, Relation.TransGen (CatalogEdge root target catalog) root.name name ∧
      ∃ candidate ∈ catalog, candidate.manifest.name = name) →
    names.length ≤ maxResolvedPackages
  depth : ∀ path : List String, List.IsChain (CatalogEdge root target catalog) (root.name :: path) →
    (root.name :: path).Nodup → (root.name :: path).length ≤ maxDependencyDepth

theorem CatalogEdge.of_subset {larger : List PackageCandidate}
    (included : ∀ candidate, candidate ∈ catalog → candidate ∈ larger) {parent dependency : String}
    (edge : CatalogEdge root target catalog parent dependency) :
    CatalogEdge root target larger parent dependency := by
  cases edge with
  | fromRoot mem => exact .fromRoot mem
  | fromCandidate offered mem => exact .fromCandidate (included _ offered) mem

theorem WithinLimits.of_subset {larger : List PackageCandidate}
    (limits : WithinLimits root target larger)
    (included : ∀ candidate, candidate ∈ catalog → candidate ∈ larger) :
    WithinLimits root target catalog where
  size names distinct counted := limits.size names distinct fun name mem => by
    obtain ⟨path, candidate, offered, named⟩ := counted name mem
    exact ⟨Relation.TransGen.mono (fun _ _ edge => edge.of_subset included) _ _ path, candidate,
      included candidate offered, named⟩
  depth path chain distinct :=
    limits.depth path (chain.imp fun _ _ edge => edge.of_subset included) distinct

/-- Every name that some dependency of the catalog has. -/
def dependencyNames (root : PackageManifest) (target : TargetPlatform)
    (catalog : List PackageCandidate) : List String :=
  (rootDependencies root target).map (·.name)
    ++ catalog.flatMap fun candidate => (runtimeDependencies candidate.manifest target).map (·.name)

theorem CatalogEdge.mem_dependencyNames {parent dep : String}
    (edge : CatalogEdge root target catalog parent dep) :
    dep ∈ dependencyNames root target catalog := by
  cases edge with
  | fromRoot mem => exact mem_append_left _ (mem_map_of_mem mem)
  | fromCandidate offered mem =>
    exact mem_append_right _ (mem_flatMap.mpr ⟨_, offered, mem_map_of_mem mem⟩)

theorem withinLimits_of_few
    (few : (dependencyNames root target catalog).length < maxDependencyDepth) :
    WithinLimits root target catalog where
  size names distinct counted := by
    have included : names ⊆ dependencyNames root target catalog := by
      intro name mem
      obtain ⟨_, _, last⟩ := Relation.TransGen.tail'_iff.mp (counted name mem).1
      exact last.mem_dependencyNames
    have bound := (distinct.subperm included).length_le
    unfold maxDependencyDepth at few
    unfold maxResolvedPackages
    omega
  depth path chain distinct := by
    have included : path ⊆ dependencyNames root target catalog := by
      clear distinct
      generalize root.name = x at chain
      induction path generalizing x with
      | nil => simp
      | cons y rest ih =>
        obtain ⟨edge, tail⟩ := isChain_cons_cons.mp chain
        exact cons_subset.mpr ⟨edge.mem_dependencyNames, ih y tail⟩
    have bound := ((nodup_cons.mp distinct).2.subperm included).length_le
    rw [length_cons]
    omega

end FoundationLang.Package
