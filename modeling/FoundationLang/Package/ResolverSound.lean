/-
**Resolver soundness: a lock is a valid resolution.**

`resolvePackageGraph_sound`: whenever `resolvePackageGraph` returns a resolution, its packages are
exactly the names the root needs, each selected once and as every dependency on it asks, and the
edges of the lock are the edges of that selection and acyclic (`Resolves`).

The search returns only states it reached from the root level by level, with nothing pending and no
cycle (`solve_sound`), and every such state has `SolverInvariant`.
-/

import FoundationLang.Package.ResolverInvariant

namespace FoundationLang.Package

open Std Relation Library List

variable {catalog : List PackageCandidate} {target : TargetPlatform} {root : PackageManifest}
  {sdk : PackageVersion}

/-! ### The search returns a reached state -/

theorem tryChoices_eq_some
    {choose : PackageCandidate × Nat → Except (Option Failure) SolverState}
    {recur : SolverState → Option Failure → Option SolverState × Option Failure}
    {options : List (PackageCandidate × Nat)} {e failure' : Option Failure}
    {final : SolverState} (solved : tryChoices choose recur options e = (some final, failure')) :
    ∃ choice ∈ options, ∃ next before, choose choice = .ok next
      ∧ recur next before = (some final, failure') := by
  induction options generalizing e with
  | nil => simp [tryChoices] at solved
  | cons choice rest ih =>
    have later : ∀ {before}, tryChoices choose recur rest before = (some final, failure') →
        ∃ y ∈ choice :: rest, ∃ next before, choose y = .ok next
          ∧ recur next before = (some final, failure') := by
      intro before solved
      obtain ⟨y, mem, found⟩ := ih solved
      exact ⟨y, mem_cons_of_mem _ mem, found⟩
    simp only [tryChoices] at solved
    split at solved
    case h_1 => exact later solved
    case h_2 => exact later solved
    case h_3 next chosen =>
      split at solved
      case h_1 s after called =>
        cases solved
        exact ⟨choice, by simp, next, e, chosen, called⟩
      case h_2 => exact later solved

section Search

/-- **`solve` returns a state that it reached, complete and without a cycle.** -/
theorem solve_sound {fuel : Nat} {s final : SolverState} {e failure' : Option Failure}
    (solved : solve catalog sdk target fuel s e = (some final, failure')) :
    ReflTransGen (SearchStep sdk target catalog) s final ∧ unresolved final = none
      ∧ dependencyCycle final.edges = none := by
  induction fuel generalizing s e failure' with
  | zero => simp [solve] at solved
  | succ fuel ih =>
    simp only [solve] at solved
    split at solved
    case h_1 complete =>
      split at solved
      case h_1 => simp at solved
      case h_2 acyclic =>
        cases solved
        exact ⟨.refl, complete, acyclic⟩
    case h_2 name constraints pending =>
      split at solved
      case isTrue => simp at solved
      case isFalse room =>
        split at solved
        case h_1 => simp at solved
        case h_2 x rest options =>
          obtain ⟨_, mem, _, _, chosen, called⟩ := tryChoices_eq_some solved
          obtain ⟨reached, facts⟩ := ih called
          rw [← options] at mem
          exact ⟨.head (.intro pending room mem chosen) reached, facts⟩

theorem invariant_of_reached {s final : SolverState}
    (reached : ReflTransGen (SearchStep sdk target catalog) s final)
    (inv : SolverInvariant root sdk target catalog s) :
    SolverInvariant root sdk target catalog final := by
  induction reached with
  | refl => exact inv
  | tail _ step ih => exact (step.invariant ih).1

/-! ### A complete state is a valid selection -/

variable {s : SolverState}

section

variable (inv : SolverInvariant root sdk target catalog s)
include inv

theorem SolverInvariant.selection_eq_some
    {name : String} {c : PackageCandidate}
    (selected : s.selection catalog name = some c) :
    c ∈ catalog ∧ c.manifest.name = name
      ∧ c.manifest.sdk.accepts sdk = true
      ∧ ∀ constraint ∈ s.constraintsOf name, Satisfies sdk c constraint.dependency := by
  obtain ⟨index, present, entry⟩ := Option.bind_eq_some_iff.mp selected
  obtain ⟨_, foundEntry, named, fits⟩ := inv.selected name index present
  rw [foundEntry] at entry
  cases entry
  have same : ∀ constraint ∈ s.constraintsOf name,
      c.manifest.name = constraint.dependency.name := by
    intro constraint mem
    rw [named, (inv.constraintAsked name constraint mem).1]
  exact ⟨mem_of_getElem? foundEntry, named, (matchesAll_iff same).mp fits⟩

theorem SolverInvariant.selection_of_mem
    {name : String} (mem : name ∈ s.selected) :
    ∃ candidate, s.selection catalog name = some candidate := by
  have present := TreeMap.getElem?_eq_some_getElem mem
  obtain ⟨candidate, entry, _⟩ := inv.selected name _ present
  exact ⟨candidate, Option.bind_eq_some_iff.mpr ⟨_, present, entry⟩⟩

theorem SolverInvariant.asked_satisfied
    (complete : unresolved s = none) {dependency : PackageDependency}
    (asked : Asked root target (s.selection catalog) dependency) :
    ∃ candidate, s.selection catalog dependency.name = some candidate
      ∧ Satisfies sdk candidate dependency := by
  obtain ⟨constraint, mem, same⟩ := inv.askedConstraint dependency asked
  have key : dependency.name ∈ s.constraints := by
    by_contra absent
    simp [SolverState.constraintsOf, TreeMap.getElem?_eq_none absent] at mem
  obtain ⟨candidate, selected⟩ :=
    inv.selection_of_mem (unresolved_eq_none.mp complete _ key)
  refine ⟨candidate, selected, ?_⟩
  exact same ▸ (inv.selection_eq_some selected).2.2.2 constraint mem

theorem SolverInvariant.requires_iff :
    Requires s.edges = Leads root target (s.selection catalog) := by
  funext parent dep
  exact propext (exists_congr fun scope => inv.edges _)

/-- **A complete acyclic state is a valid selection.** -/
theorem SolverInvariant.validSelection
    (complete : unresolved s = none) (acyclic : dependencyCycle s.edges = none) :
    ValidSelection root sdk target catalog (s.selection catalog) where
  fromCatalog name candidate selected :=
    ⟨(inv.selection_eq_some selected).1, (inv.selection_eq_some selected).2.1⟩
  rootDependencies dep member := inv.asked_satisfied complete (.inl member)
  runtimeDependencies name parent selected dep member :=
    inv.asked_satisfied complete (.inr ⟨name, parent, selected, member⟩)
  acyclic := by
    rw [← inv.requires_iff]
    exact (dependencyCycle_eq_none_iff s.edges).mp acyclic

theorem SolverInvariant.selected_iff_reached
    (complete : unresolved s = none) (name : String) :
    (∃ candidate, s.selection catalog name = some candidate)
      ↔ Reached root target (s.selection catalog) name := by
  constructor
  · rintro ⟨candidate, selected⟩
    obtain ⟨_, present, _⟩ := Option.bind_eq_some_iff.mp selected
    have mem : name ∈ s.selected := by
      rw [TreeMap.mem_iff_isSome_getElem?, present]
      rfl
    exact inv.reached name (inv.selectedConstrained name mem)
  · intro reached
    have asked : ∃ dependency, dependency.name = name
        ∧ Asked root target (s.selection catalog) dependency := by
      cases reached with
      | fromRoot mem => exact ⟨_, rfl, .inl mem⟩
      | fromSelected _ selected mem => exact ⟨_, rfl, .inr ⟨_, _, selected, mem⟩⟩
    obtain ⟨_, rfl, asked⟩ := asked
    obtain ⟨candidate, selected, _⟩ := inv.asked_satisfied complete asked
    exact ⟨candidate, selected⟩

end

end Search

/-! ### The lock -/

/-- The selection that a list of packages stands for. -/
def packageNamed (packages : List PackageCandidate) : Selection :=
  fun name => packages.find? (·.manifest.name == name)

/-- **A resolution of the root.** -/
structure Resolves (root : PackageManifest) (sdk : PackageVersion) (target : TargetPlatform)
    (catalog : List PackageCandidate) (resolution : PackageResolution) : Prop where
  valid : ValidSelection root sdk target catalog (packageNamed resolution.packages)
  needed : ∀ name, (∃ candidate ∈ resolution.packages, candidate.manifest.name = name)
    ↔ Reached root target (packageNamed resolution.packages) name
  once : (resolution.packages.map (·.manifest.name)).Nodup
  locked : resolution.lock.packages = resolution.packages.map fun candidate =>
    ⟨candidate.manifest.name, candidate.manifest.version, candidate.digest, candidate.kind,
      candidate.location⟩
  edges : ∀ edge, edge ∈ resolution.lock.edges
    ↔ SelectedEdge root target (packageNamed resolution.packages) edge
  acyclic : Acyclic fun parent dependency =>
    ∃ scope, (⟨parent, dependency, scope⟩ : PackageEdge) ∈ resolution.lock.edges

section Lock

variable {s : SolverState}

theorem mem_selectedCandidates (name : String) (candidate : PackageCandidate) :
    (name, candidate) ∈ selectedCandidates catalog s
      ↔ s.selection catalog name = some candidate := by
  unfold selectedCandidates SolverState.selection
  rw [mem_filterMap, Option.bind_eq_some_iff]
  simp only [Prod.exists, TreeMap.mem_toList_iff_getElem?_eq_some, Option.map_eq_some_iff,
    Prod.mk.injEq]
  constructor
  · rintro ⟨_, index, present, _, entry, rfl, rfl⟩
    exact ⟨index, present, entry⟩
  · rintro ⟨index, present, entry⟩
    exact ⟨name, index, present, candidate, entry, rfl, rfl⟩

theorem SolverInvariant.selectedCandidates_named
    (inv : SolverInvariant root sdk target catalog s) {e : String × PackageCandidate}
    (mem : e ∈ selectedCandidates catalog s) : e.2.manifest.name = e.1 :=
  (inv.selection_eq_some ((mem_selectedCandidates _ _).mp mem)).2.1

theorem nodup_selectedCandidates : ((selectedCandidates catalog s).map (·.1)).Nodup := by
  have keys : s.selected.toList.Pairwise fun x y => x.1 ≠ y.1 :=
    (TreeMap.distinct_keys_toList (t := s.selected)).imp fun distinct same =>
      distinct (by rw [same]; exact ReflCmp.compare_self)
  unfold selectedCandidates
  rw [List.Nodup, pairwise_map]
  refine List.Pairwise.filterMap _ ?_ keys
  intro x y distinct firstEntry firstFound secondEntry secondFound
  rw [Option.map_eq_some_iff] at firstFound secondFound
  obtain ⟨_, _, rfl⟩ := firstFound
  obtain ⟨_, _, rfl⟩ := secondFound
  exact distinct

theorem SolverInvariant.packageNamed_eq
    (inv : SolverInvariant root sdk target catalog s) :
    packageNamed ((selectedCandidates catalog s).map (·.2)) = s.selection catalog := by
  funext name
  cases selected : s.selection catalog name with
  | none =>
    unfold packageNamed
    rw [List.find?_eq_none]
    intro candidate mem named
    obtain ⟨entry, present, rfl⟩ := mem_map.mp mem
    have same := inv.selectedCandidates_named present
    have found := (mem_selectedCandidates entry.1 entry.2).mp present
    rw [← same, beq_iff_eq.mp named, selected] at found
    cases found
  | some candidate =>
    have present := (mem_selectedCandidates name candidate).mpr selected
    have named := inv.selectedCandidates_named present
    cases found : packageNamed ((selectedCandidates catalog s).map (·.2)) name with
    | none =>
      have absent := List.find?_eq_none.mp found candidate (mem_map.mpr ⟨_, present, rfl⟩)
      exact absurd (beq_iff_eq.mpr named) absent
    | some =>
      have otherNamed := List.find?_some found
      obtain ⟨entry, entryPresent, rfl⟩ := mem_map.mp (mem_of_find?_eq_some found)
      have same := inv.selectedCandidates_named entryPresent
      have entryFound := (mem_selectedCandidates entry.1 entry.2).mp entryPresent
      rw [← same, beq_iff_eq.mp otherNamed, selected] at entryFound
      exact entryFound.symm

/-- **The lock of a complete acyclic state resolves the root.** -/
theorem SolverInvariant.resolves (inv : SolverInvariant root sdk target catalog s)
    (complete : unresolved s = none) (acyclic : dependencyCycle s.edges = none)
    (lock : PackageLock) : Resolves root sdk target catalog (lockGraph catalog s lock) := by
  have selection : packageNamed (lockGraph catalog s lock).packages = s.selection catalog :=
    inv.packageNamed_eq
  have valid := inv.validSelection complete acyclic
  have edges : ∀ edge, edge ∈ (lockGraph catalog s lock).lock.edges
      ↔ SelectedEdge root target (s.selection catalog) edge := by
    intro edge
    rw [← inv.edges]
    exact TreeSet.mem_toList
  refine ⟨selection ▸ valid, ?_, ?_, ?_, selection ▸ edges, ?_⟩
  · intro name
    rw [selection, ← inv.selected_iff_reached complete]
    constructor
    · rintro ⟨candidate, mem, rfl⟩
      obtain ⟨entry, present, rfl⟩ := mem_map.mp mem
      rw [inv.selectedCandidates_named present]
      exact ⟨entry.2, (mem_selectedCandidates _ _).mp present⟩
    · rintro ⟨candidate, selected⟩
      have present := (mem_selectedCandidates name candidate).mpr selected
      exact ⟨candidate, mem_map.mpr ⟨_, present, rfl⟩,
        inv.selectedCandidates_named present⟩
  · have names : (lockGraph catalog s lock).packages.map (·.manifest.name)
        = (selectedCandidates catalog s).map (·.1) := by
      show ((selectedCandidates catalog s).map (·.2)).map (·.manifest.name) = _
      rw [List.map_map]
      exact List.map_congr_left fun entry mem => inv.selectedCandidates_named mem
    rw [names]
    exact nodup_selectedCandidates
  · show (selectedCandidates catalog s).map _ = ((selectedCandidates catalog s).map _).map _
    rw [List.map_map]
    refine List.map_congr_left fun entry mem => ?_
    show LockedPackage.mk entry.1 _ _ _ _ = LockedPackage.mk entry.2.manifest.name _ _ _ _
    rw [inv.selectedCandidates_named mem]
  · exact valid.acyclic.mono fun parent dep ⟨scope, mem⟩ => ⟨scope, (edges _).mp mem⟩

end Lock

/-! ### The resolver -/

theorem mem_sortCatalog {c : PackageCandidate} :
    c ∈ sortCatalog catalog ↔ c ∈ catalog := by
  unfold sortCatalog stdSort
  exact mem_insertionSort _

theorem ValidSelection.of_sorted {selection : Selection} :
    ValidSelection root sdk target (sortCatalog catalog) selection
      ↔ ValidSelection root sdk target catalog selection := by
  constructor
  · rintro ⟨offered, fromRoot, fromSelected, acyclic⟩
    exact ⟨fun name candidate selected => ⟨mem_sortCatalog.mp (offered name candidate selected).1,
      (offered name candidate selected).2⟩, fromRoot, fromSelected, acyclic⟩
  · rintro ⟨offered, fromRoot, fromSelected, acyclic⟩
    exact ⟨fun name candidate selected => ⟨mem_sortCatalog.mpr (offered name candidate selected).1,
      (offered name candidate selected).2⟩, fromRoot, fromSelected, acyclic⟩

theorem solveRoot_resolves {s : SolverState} {e : Option Failure}
    (solved : solveRoot root sdk target (sortCatalog catalog) = (some s, e))
    (lock : PackageLock) :
    Resolves root sdk target catalog (lockGraph (sortCatalog catalog) s lock) := by
  obtain ⟨reached, complete, acyclic⟩ := solve_sound solved
  have inv := invariant_of_reached reached
    (invariant_rootState root sdk target (sortCatalog catalog))
  have resolves := inv.resolves complete acyclic lock
  exact ⟨ValidSelection.of_sorted.mp resolves.valid, resolves.needed, resolves.once,
    resolves.locked, resolves.edges, resolves.acyclic⟩

/-- The lock before its packages and edges are added. -/
def rootLock (environment : Environment) (rootManifestPath : String) (root : PackageManifest)
    (target : TargetPlatform) : PackageLock × List PackageError :=
  lockRootPackageMetadata environment
    { rootName := root.name, rootVersion := root.version, target := target } root target
    rootManifestPath

theorem resolvePackageGraph_value {environment : Environment} {path : String}
    {r : PackageParseResult PackageResolution} {resolution : PackageResolution}
    (returned : resolvePackageGraph environment path root sdk target catalog
      = some r) (value : r.value = some resolution) :
    catalog.find? invalidCandidate = none
      ∧ (rootLock environment path root target).2 = []
      ∧ ∃ s failure,
        solveRoot root sdk target (sortCatalog catalog) = (some s, failure)
        ∧ resolution = lockGraph (sortCatalog catalog) s
          (rootLock environment path root target).1 := by
  unfold resolvePackageGraph at returned
  split at returned
  · cases returned
    cases value
  · split at returned
    · cases returned
      cases value
    · split at returned
      · cases returned
        cases value
      case h_2 checked =>
        simp only at returned
        split at returned
        · cases returned
          cases value
        · split at returned
          · cases returned
          · cases returned
            cases value
          case h_3 s failure solved =>
            split at returned
            case isTrue silent =>
              cases returned
              cases value
              exact ⟨checked, isEmpty_iff.mp silent, s, failure, solved, rfl⟩
            · cases returned
              cases value

/-- **Resolver soundness.** Whatever `resolvePackageGraph` returns as a resolution resolves the
root: the packages are exactly the names reached through active dependencies, each selected once
and as every dependency on it asks, and the edges of the lock are acyclic. -/
theorem resolvePackageGraph_sound (environment : Environment) (rootManifestPath : String)
    (root : PackageManifest) (sdk : PackageVersion) (target : TargetPlatform)
    (catalog : List PackageCandidate) (result : PackageParseResult PackageResolution)
    (resolution : PackageResolution)
    (returned : resolvePackageGraph environment rootManifestPath root sdk target catalog
      = some result)
    (value : result.value = some resolution) :
    Resolves root sdk target catalog resolution := by
  obtain ⟨_, _, _, _, solved, rfl⟩ := resolvePackageGraph_value returned value
  exact solveRoot_resolves solved (rootLock environment rootManifestPath root target).1

/-- A root that depends on one package, offered once. -/
def sampleRoot : PackageManifest where
  name := "app"
  sdk := ⟨.any, {}⟩
  dependencies := [{ name := "a", requirement := ⟨.caret, { major := 1 }⟩, location := "r" }]

/-- A candidate that depends on another one. -/
def sampleCandidate : PackageCandidate where
  manifest := { name := "a", version := { major := 1, minor := 2 }, sdk := ⟨.any, {}⟩ }
  digest := "sha256:0000000000000000000000000000000000000000000000000000000000000000"
  location := "r"

/-- An environment without foreign packages. -/
def sampleEnvironment : Environment where
  sha256Hex := fun _ => ""
  inspectForeign := fun _ _ => .error []

/-- The package depends on a second one, of which two versions are offered. -/
def sampleCatalog : List PackageCandidate :=
  let second := { sampleCandidate with
    manifest := { sampleCandidate.manifest with name := "b", version := { major := 1 } } }
  [{ sampleCandidate with manifest := { sampleCandidate.manifest with dependencies :=
      [{ name := "b", requirement := ⟨.tilde, { major := 1 }⟩, location := "r" }] } },
    { second with manifest := { second.manifest with version := { major := 1, minor := 3 } } },
    second]

theorem resolvePackageGraph_sound_sample :
    ∃ resolution, resolution.packages.map (fun package => package.manifest.name) = ["a", "b"]
      ∧ resolution.lock.edges.map (fun edge => (edge.parent, edge.dependency))
        = [("a", "b"), ("app", "a")]
      ∧ Resolves sampleRoot {} .linux sampleCatalog resolution :=
  ⟨_, rfl, rfl, resolvePackageGraph_sound sampleEnvironment "foundation.toml" sampleRoot {} .linux
    sampleCatalog _ _ rfl rfl⟩

end FoundationLang.Package
