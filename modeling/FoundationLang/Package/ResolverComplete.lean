/-
**Resolver completeness: no valid selection is missed.**

`resolvePackageGraph_complete`: within the limits, a report of a conflict (`FDN4052`) or of a cycle
(`FDN4054`) means that no valid selection exists.

The proof follows one valid selection through the search. A state is *compatible* with it when the
candidates selected so far are its own (`Compatible`). At a compatible state nothing the search
prunes is on the way to the valid selection:

* its candidate for the pending name is among the choices (`Compatible.choice`);
* the origin is a path of its edges, so a dependency that closes the path would be a cycle, and a
  path of full length would be one name too long (`Compatible.addDependencies`);
* the check of the earlier selections holds, since they and the new constraints are all its own.

So the search succeeds from every compatible state (`solve_complete`), whatever choices it tried
before.
-/

import FoundationLang.Package.ResolverSound

namespace FoundationLang.Package

open Std Relation Library List

section Complete

variable {root : PackageManifest} {sdk : PackageVersion} {target : TargetPlatform}
variable {name : String} {candidate : PackageCandidate}

  {catalog : List PackageCandidate} {selection : Selection} {s : SolverState}

/-! ### States on the way to a selection -/

/-- The state has selected nothing but candidates of the given selection. -/
def Compatible (catalog : List PackageCandidate) (selection : Selection) (state : SolverState) :
    Prop :=
  ∀ name candidate, state.selection catalog name = some candidate → selection name = some candidate

section

variable (valid : ValidSelection root sdk target catalog selection)
include valid

theorem Compatible.provides
    (compatible : Compatible catalog selection s) {dependency : PackageDependency}
    (asked : Asked root target (s.selection catalog) dependency) :
    ∃ candidate, selection dependency.name = some candidate
      ∧ Satisfies sdk candidate dependency := by
  rcases asked with fromRoot | ⟨parent, candidate, selected, mem⟩
  · exact valid.rootDependencies dependency fromRoot
  · exact valid.runtimeDependencies parent candidate (compatible parent candidate selected)
      dependency mem

theorem Compatible.matches
    (compatible : Compatible catalog selection s) (selected : selection name = some candidate)
    (nonempty : s.constraintsOf name ≠ [])
    (asked : ∀ constraint ∈ s.constraintsOf name, constraint.dependency.name = name
      ∧ Asked root target (s.selection catalog) constraint.dependency) :
    matchesAll candidate (s.constraintsOf name) sdk = true := by
  have satisfied : ∀ constraint ∈ s.constraintsOf name,
      Satisfies sdk candidate constraint.dependency := by
    intro constraint mem
    obtain ⟨named, wanted⟩ := asked constraint mem
    obtain ⟨_, found, satisfies⟩ := compatible.provides valid wanted
    rw [named, selected] at found
    cases found
    exact satisfies
  obtain ⟨constraint, mem⟩ := exists_mem_of_ne_nil _ nonempty
  exact (matchesAll_iff fun constraint mem => (satisfied constraint mem).name).mpr
    ⟨(satisfied constraint mem).sdk, satisfied⟩

theorem Compatible.selects
    (inv : SolverInvariant root sdk target catalog s)
    (compatible : Compatible catalog selection s) (constrained : name ∈ s.constraints) :
    ∃ candidate, selection name = some candidate := by
  obtain ⟨constraint, mem⟩ := exists_mem_of_ne_nil _ (inv.constrained name constrained)
  obtain ⟨named, asked⟩ := inv.constraintAsked name constraint mem
  obtain ⟨candidate, found, _⟩ := compatible.provides valid asked
  exact ⟨candidate, named ▸ found⟩

end

theorem Compatible.leads (compatible : Compatible catalog selection s) (parent dependency : String)
    (edge : Leads root target (s.selection catalog) parent dependency) :
    Leads root target selection parent dependency :=
  edge.imp fun _ selected => selected.mono compatible

theorem ValidSelection.catalogEdge (valid : ValidSelection root sdk target catalog selection)
    {parent dependency : String} (edge : Leads root target selection parent dependency) :
    CatalogEdge root target catalog parent dependency := by
  obtain ⟨_, edge⟩ := edge
  cases edge with
  | fromRoot mem => exact .fromRoot mem
  | fromSelected selected mem =>
    obtain ⟨offered, named⟩ := valid.fromCatalog _ _ selected
    exact named ▸ .fromCandidate offered mem

/-! ### The limits -/

theorem Reached.transGen (reached : Reached root target selection name) :
    TransGen (Leads root target selection) root.name name := by
  induction reached with
  | fromRoot mem => exact .single ⟨_, .fromRoot mem⟩
  | fromSelected _ selected mem ih => exact ih.tail ⟨_, .fromSelected selected mem⟩

theorem Compatible.counted (valid : ValidSelection root sdk target catalog selection)
    (inv : SolverInvariant root sdk target catalog s)
    (compatible : Compatible catalog selection s) (constrained : name ∈ s.constraints) :
    TransGen (CatalogEdge root target catalog) root.name name
      ∧ ∃ candidate ∈ catalog, candidate.manifest.name = name := by
  obtain ⟨candidate, selected⟩ := compatible.selects valid inv constrained
  refine ⟨?_, candidate, valid.fromCatalog name candidate selected⟩
  exact TransGen.mono (fun parent dep edge =>
    valid.catalogEdge (compatible.leads parent dep edge)) _ _
      (inv.reached name constrained).transGen

section

variable (valid : ValidSelection root sdk target catalog selection)
  (limits : WithinLimits root target catalog)
  (inv : SolverInvariant root sdk target catalog s)
include valid limits inv

variable (compatible : Compatible catalog selection s)
include compatible

theorem Compatible.size_le {names : List String} (distinct : names.Nodup)
    (constrained : ∀ name ∈ names, name ∈ s.constraints) :
    names.length ≤ maxResolvedPackages :=
  limits.size names distinct fun name mem =>
    compatible.counted valid inv (constrained name mem)

theorem Compatible.size_lt (constrained : name ∈ s.constraints)
    (fresh : name ∉ s.selected) : s.selected.size < maxResolvedPackages := by
  have distinct : (name :: s.selected.keys).Nodup :=
    nodup_cons.mpr ⟨by rwa [TreeMap.mem_keys], TreeMap.nodup_keys⟩
  have bound := compatible.size_le valid limits inv distinct (by
      intro y mem
      rcases mem_cons.mp mem with same | selected
      · exact same ▸ constrained
      · exact inv.selectedConstrained y (TreeMap.mem_keys.mp selected))
  rw [length_cons, TreeMap.length_keys] at bound
  omega

theorem Compatible.selected_size_le :
    s.selected.size ≤ maxResolvedPackages := by
  rw [← TreeMap.length_keys]
  exact compatible.size_le valid limits inv TreeMap.nodup_keys fun name mem =>
    inv.selectedConstrained name (TreeMap.mem_keys.mp mem)

/-! ### The right choice is never abandoned -/

theorem Compatible.origin (constrained : name ∈ s.constraints)
    (selected : selection name = some candidate) {dep : PackageDependency}
    (mem : dep ∈ runtimeDependencies candidate.manifest target) :
    (originPath (s.constraintsOf name)).length ≠ maxDependencyDepth
      ∧ dep.name ∉ originPath (s.constraintsOf name) := by
  obtain ⟨constraint, present, same⟩ := originPath_mem (inv.constrained name constrained)
  obtain ⟨⟨path, shape⟩, chain⟩ := inv.constraintPath name constraint present
  rw [same, shape, ← cons_append]
  rw [shape, ← cons_append] at chain
  have step : Leads root target selection name dep.name :=
    ⟨.runtime, .fromSelected selected mem⟩
  have along := chain.imp compatible.leads
  have longer : List.IsChain (Leads root target selection)
      (root.name :: (path ++ [name] ++ [dep.name])) := by
    rw [← cons_append, ← cons_append]
    refine isChain_append.mpr ⟨along, by simp, ?_⟩
    intro x firstLast y secondHead
    rw [List.getLast?_concat] at firstLast
    simp only [List.head?_cons, Option.mem_def, Option.some.injEq] at firstLast secondHead
    exact firstLast ▸ secondHead ▸ step
  refine ⟨fun deep => ?_, fun closes => valid.acyclic _ (transGen_of_isChain_mem along closes step)⟩
  have bound := limits.depth _ (longer.imp fun _ _ edge => valid.catalogEdge edge)
    (nodup_of_isChain_acyclic valid.acyclic longer)
  simp only [length_cons, length_append, length_nil] at bound deep
  omega

/-- **Choosing the candidate of a valid selection is not abandoned**, and stays on the way to it. -/
theorem Compatible.choose {i : Nat}
    (constrained : name ∈ s.constraints) (fresh : name ∉ s.selected)
    (entry : catalog[i]? = some candidate) (selected : selection name = some candidate) :
    ∃ next, choose catalog sdk target s name (s.constraintsOf name) (candidate, i)
        = .ok next ∧ Compatible catalog selection next := by
  have extended := extends_chosenState target (s.constraintsOf name) fresh entry
  have compatibleNext : Compatible catalog selection
      (chosenState target s name (s.constraintsOf name) (candidate, i)) := by
    intro y found foundSelected
    rw [extended.selection] at foundSelected
    split at foundSelected
    case isTrue same =>
      cases foundSelected
      exact same ▸ selected
    case isFalse => exact compatible y found foundSelected
  have outcome := choose_spec sdk target catalog s name (s.constraintsOf name)
    (candidate, i)
  revert outcome
  cases Package.choose catalog sdk target s name (s.constraintsOf name)
      (candidate, i) with
  | ok next =>
    rintro ⟨rfl, _⟩
    exact ⟨_, rfl, compatibleNext⟩
  | error failure =>
    cases failure with
    | some =>
      rintro ⟨_, mem, pruned⟩
      obtain ⟨shallow, opened⟩ :=
        compatible.origin valid limits inv constrained selected mem
      exact (pruned.elim shallow opened).elim
    | none =>
      -- the check of the earlier selections cannot fail
      rintro ⟨contradicted, _⟩
      have checked : selectionMatches catalog sdk
          (chosenState target s name (s.constraintsOf name) (candidate, i)) = true := by
        refine selectionMatches_iff.mpr fun y position present => ?_
        have mem : y ∈ (chosenState target s name (s.constraintsOf name)
            (candidate, i)).selected := by
          rw [TreeMap.mem_iff_isSome_getElem?, present]
          rfl
        obtain ⟨found, foundEntry⟩ : ∃ found, catalog[position]? = some found := by
          rw [extended.selected, TreeMap.getElem?_insertIfNew] at present
          split at present
          · cases present
            exact ⟨candidate, entry⟩
          · obtain ⟨found, foundEntry, _⟩ := inv.selected y position present
            exact ⟨found, foundEntry⟩
        have key := extended.selectedConstrained inv constrained y mem
        refine ⟨found, foundEntry, compatibleNext.matches valid ?_
          (extended.constrained inv y key) (extended.constraintAsked inv y)⟩
        exact compatibleNext y found
          (Option.bind_eq_some_iff.mpr ⟨position, present, foundEntry⟩)
      rw [checked] at contradicted
      cases contradicted

/-! ### The search succeeds -/

end

theorem tryChoices_isSome
    {choose : PackageCandidate × Nat → Except (Option Failure) SolverState}
    {recur : SolverState → Option Failure → Option SolverState × Option Failure}
    {options : List (PackageCandidate × Nat)} {choice : PackageCandidate × Nat} {next : SolverState}
    (mem : choice ∈ options) (chosen : choose choice = .ok next)
    (succeeds : ∀ e, (recur next e).1.isSome) (e : Option Failure) :
    (tryChoices choose recur options e).1.isSome := by
  induction options generalizing e with
  | nil => cases mem
  | cons x rest ih =>
    rcases mem_cons.mp mem with same | later
    · subst same
      have success := succeeds e
      simp only [tryChoices, chosen]
      revert success
      rcases recur next e with ⟨_ | _, _⟩
      · simp
      · simp
    · simp only [tryChoices]
      split
      · exact ih later _
      · exact ih later _
      · split
        · rfl
        · exact ih later _

/-- **The search succeeds from every state compatible with a valid selection.** -/
theorem solve_complete (valid : ValidSelection root sdk target catalog selection)
    (limits : WithinLimits root target catalog) (fuel : Nat) (s : SolverState)
    (inv : SolverInvariant root sdk target catalog s)
    (compatible : Compatible catalog selection s)
    (enough : maxResolvedPackages < fuel + s.selected.size) (e : Option Failure) :
    (solve catalog sdk target fuel s e).1.isSome := by
  induction fuel generalizing s e with
  | zero =>
    have bound := compatible.selected_size_le valid limits inv
    omega
  | succ fuel ih =>
    simp only [solve]
    cases pending : unresolved s with
    | none =>
      have acyclic : dependencyCycle s.edges = none := by
        rw [dependencyCycle_eq_none_iff, inv.requires_iff]
        exact valid.acyclic.mono compatible.leads
      simp [acyclic]
    | some entry =>
      obtain ⟨name, constraints⟩ := entry
      obtain ⟨constrained, fresh, rfl⟩ := unresolved_eq_some pending
      have room := compatible.size_lt valid limits inv constrained fresh
      obtain ⟨candidate, selected⟩ := compatible.selects valid inv constrained
      obtain ⟨offered, named⟩ := valid.fromCatalog name candidate selected
      obtain ⟨index, entry⟩ := mem_iff_getElem?.mp offered
      have option : (candidate, index) ∈ choices catalog sdk name (s.constraintsOf name) :=
        mem_choices.mpr ⟨entry, named, compatible.matches valid selected
          (inv.constrained name constrained) (inv.constraintAsked name)⟩
      obtain ⟨next, chosen, onward⟩ :=
        compatible.choose valid limits inv constrained fresh entry selected
      obtain ⟨kept, larger⟩ :=
        (SearchStep.intro pending (Nat.ne_of_lt room) option chosen).invariant inv
      have success : ∀ e, (solve catalog sdk target fuel next e).1.isSome :=
        ih next kept onward (by omega)
      simp only [if_neg (Nat.ne_of_lt room)]
      cases options : choices catalog sdk name (s.constraintsOf name) with
      | nil =>
        rw [options] at option
        cases option
      | cons =>
        rw [options] at option
        exact tryChoices_isSome option chosen success e

theorem solveRoot_complete (limits : WithinLimits root target catalog)
    (failed : (solveRoot root sdk target catalog).1 = none) :
    ¬ValidSelection root sdk target catalog selection := by
  intro valid
  have compatible : Compatible catalog selection (rootState root target) := by
    intro name candidate selected
    rw [selection_rootState] at selected
    cases selected
  have success := solve_complete valid limits (maxResolvedPackages + 1) (rootState root target)
    (invariant_rootState root sdk target catalog) compatible (by omega) none
  rw [solveRoot] at failed
  simp [failed] at success

end Complete

/-! ### The resolver -/

theorem lockRootPackageMetadata_codes {environment : Environment} (lock : PackageLock)
    {m : PackageManifest} (target : TargetPlatform) {path : String}
    {error : PackageError}
    (mem : error ∈ (lockRootPackageMetadata environment lock m target path).2) :
    error.code = "FDN4057" := by
  unfold lockRootPackageMetadata at mem
  simp only [mem_flatMap, mem_map] at mem
  obtain ⟨_, ⟨_, _, rfl⟩, reported⟩ := mem
  unfold lockForeign at reported
  split at reported
  case h_2 => cases reported
  case h_1 errors failed =>
    split at failed
    · cases failed
      rw [mem_singleton] at reported
      rw [reported]
    · split at failed
      · cases failed
        obtain ⟨_, _, rfl⟩ := mem_map.mp reported
        rfl
      · cases failed

/-- An error is the report of a conflict or of a cycle. -/
def ReportsNoSelection (error : PackageError) : Prop :=
  error.code = "FDN4052" ∨ error.code = "FDN4054"

theorem resolvePackageGraph_reports {environment : Environment} {rootManifestPath : String}
    {root : PackageManifest} {sdk : PackageVersion} {target : TargetPlatform}
    {catalog : List PackageCandidate} {r : PackageParseResult PackageResolution}
    {error : PackageError}
    (returned : resolvePackageGraph environment rootManifestPath root sdk target catalog
      = some r)
    (mem : error ∈ r.errors) (reports : ReportsNoSelection error) :
    (solveRoot root sdk target (sortCatalog catalog)).1 = none := by
  have only : ∀ {path message code}, r = { errors := [⟨path, 1, 1, code, message⟩] } →
      code ≠ "FDN4052" → code ≠ "FDN4054" → False := by
    intro path message code same x y
    rw [same, mem_singleton] at mem
    rw [mem] at reports
    exact reports.elim x y
  unfold resolvePackageGraph at returned
  split at returned
  · cases returned
    exact (only rfl (by decide) (by decide)).elim
  · split at returned
    · cases returned
      exact (only rfl (by decide) (by decide)).elim
    · split at returned
      · cases returned
        exact (only rfl (by decide) (by decide)).elim
      · simp only at returned
        split at returned
        · cases returned
          exact (only rfl (by decide) (by decide)).elim
        · split at returned
          case h_1 failed => rw [failed]
          case h_2 failed => rw [failed]
          case h_3 =>
            split at returned
            · cases returned
              cases mem
            · cases returned
              have code := lockRootPackageMetadata_codes { rootName := root.name, rootVersion := root.version }
                target mem
              rw [ReportsNoSelection, code] at reports
              exact absurd reports (by decide)

/-- **Resolver completeness.** Within the limits, when `resolvePackageGraph` reports a conflict or
a cycle there is no valid selection from the catalog. -/
theorem resolvePackageGraph_complete (environment : Environment) (rootManifestPath : String)
    (root : PackageManifest) (sdk : PackageVersion) (target : TargetPlatform)
    (catalog : List PackageCandidate) (limits : WithinLimits root target catalog)
    (result : PackageParseResult PackageResolution)
    (returned : resolvePackageGraph environment rootManifestPath root sdk target catalog
      = some result)
    (error : PackageError) (mem : error ∈ result.errors) (reports : ReportsNoSelection error) :
    ¬∃ selection, ValidSelection root sdk target catalog selection := by
  rintro ⟨_, valid⟩
  refine solveRoot_complete ?_ (resolvePackageGraph_reports returned mem reports)
    (ValidSelection.of_sorted.mpr valid)
  exact limits.of_subset fun candidate => mem_sortCatalog.mp

/-- The one candidate is of the wrong major version. -/
def conflictingCandidate : PackageCandidate :=
  { sampleCandidate with manifest := { sampleCandidate.manifest with version := { major := 2 } } }

theorem resolvePackageGraph_complete_conflict :
    ¬∃ selection, ValidSelection sampleRoot {} .linux [conflictingCandidate] selection :=
  resolvePackageGraph_complete sampleEnvironment "foundation.toml" sampleRoot {} .linux
    [conflictingCandidate] (withinLimits_of_few (by decide)) _ rfl _ (mem_singleton.mpr rfl)
    (.inl rfl)

end FoundationLang.Package
