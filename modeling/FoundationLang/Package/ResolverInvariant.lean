/-
**The invariant of the package search.**

Everything the search knows is a function of its selection: the constraints and the edges are those
that the root and the selected candidates bring in, and each constraint carries a path of edges from
the root to its name. `SolverInvariant` states this; `rootState` has it (`invariant_rootState`), a
choice that is not abandoned keeps it (`invariant_choose`), and so every state that the search
reaches has it (`Visits`).
-/

import FoundationLang.Package.ResolverCycle
import FoundationLang.Package.Selection

namespace FoundationLang.Package

open Std Relation Library List

variable {constraints : List Constraint} {sdk : PackageVersion} {s : SolverState}

/-! ### Dependencies of one parent -/

/-- The dependencies of a parent entered one by one. -/
def requireAll (parent : String) (path : PackageDependency → List String)
    (scope : PackageDependency → PackageDependencyScope) (dependencies : List PackageDependency)
    (state : SolverState) : SolverState :=
  dependencies.foldl (fun state dependency =>
    state.require parent dependency (path dependency) (scope dependency)) state

section RequireAll

variable (parent : String) (path : PackageDependency → List String)
  (scope : PackageDependency → PackageDependencyScope) (deps : List PackageDependency)
  (s : SolverState)

theorem constraintsOf_require (dep : PackageDependency) (names : List String)
    (kind : PackageDependencyScope) (name : String) :
    (s.require parent dep names kind).constraintsOf name
      = s.constraintsOf name
        ++ (if dep.name = name then [⟨dep, names⟩] else []) := by
  unfold SolverState.require SolverState.constraintsOf
  simp only [TreeMap.getElem?_alter, LawfulEqCmp.compare_eq_iff_eq]
  by_cases same : dep.name = name <;> simp [same]

theorem mem_constraintsOf_requireAll (name : String) (c : Constraint) :
    c ∈ (requireAll parent path scope deps s).constraintsOf name
      ↔ c ∈ s.constraintsOf name
        ∨ ∃ dep ∈ deps, dep.name = name
          ∧ c = ⟨dep, path dep⟩ := by
  unfold requireAll
  induction deps generalizing s with
  | nil => simp
  | cons dep rest ih =>
    rw [foldl_cons, ih, constraintsOf_require, mem_append, or_assoc]
    refine or_congr_right ?_
    by_cases same : dep.name = name <;> simp [same]

theorem mem_constraints_requireAll (name : String) :
    name ∈ (requireAll parent path scope deps s).constraints
      ↔ name ∈ s.constraints ∨ ∃ dep ∈ deps, dep.name = name := by
  unfold requireAll
  induction deps generalizing s with
  | nil => simp
  | cons dep rest ih =>
    rw [foldl_cons, ih]
    simp only [SolverState.require, TreeMap.mem_alter]
    by_cases same : dep.name = name <;> simp [same]

theorem mem_edges_requireAll (edge : PackageEdge) :
    edge ∈ (requireAll parent path scope deps s).edges
      ↔ edge ∈ s.edges
        ∨ ∃ dep ∈ deps, edge = ⟨parent, dep.name, scope dep⟩ := by
  unfold requireAll
  induction deps generalizing s with
  | nil => simp
  | cons dep rest ih =>
    rw [foldl_cons, ih]
    simp only [SolverState.require, TreeSet.mem_insert, LawfulEqCmp.compare_eq_iff_eq]
    simp only [mem_cons, exists_eq_or_imp, eq_comm (a := edge)]
    tauto

theorem selected_requireAll :
    (requireAll parent path scope deps s).selected = s.selected := by
  unfold requireAll
  induction deps generalizing s with
  | nil => rfl
  | cons dep rest ih =>
    rw [foldl_cons, ih]
    rfl

end RequireAll

theorem rootState_eq_requireAll (root : PackageManifest) (target : TargetPlatform) :
    rootState root target
      = requireAll root.name (fun dep => [root.name, dep.name]) (·.scope)
        (rootDependencies root target) {} := rfl

/-- **The loop over a chosen manifest.** It enters all runtime dependencies, or stops at one that
is too deep or closes its path. -/
theorem addDependencies_spec (target : TargetPlatform) (parent : String) (origin : List String)
    (m : PackageManifest) (s : SolverState) :
    match addDependencies target parent origin m.dependencies s with
    | .ok next =>
      next = requireAll parent (fun dependency => origin ++ [dependency.name]) (fun _ => .runtime)
          (runtimeDependencies m target) s
        ∧ ∀ dependency ∈ runtimeDependencies m target,
          origin.length ≠ maxDependencyDepth ∧ dependency.name ∉ origin
    | .error failure =>
      ∃ dependency ∈ runtimeDependencies m target,
        (origin.length = maxDependencyDepth ∧ failure = depthFailure)
          ∨ (origin.length ≠ maxDependencyDepth ∧ dependency.name ∈ origin
            ∧ failure = cycleFailure (origin ++ [dependency.name])) := by
  unfold runtimeDependencies requireAll
  induction m.dependencies generalizing s with
  | nil => simp [addDependencies]
  | cons dependency rest ih =>
    simp only [addDependencies]
    have opposite : (!active dependency target || dependency.scope == .test)
        = !(active dependency target && dependency.scope != .test) := by
      rw [Bool.not_and, bne, Bool.not_not]
    rw [opposite, filter_cons]
    by_cases kept : (active dependency target && dependency.scope != .test) = true
    case neg =>
      rw [if_neg kept, if_pos (by rw [Bool.not_eq_true] at kept; rw [kept]; rfl)]
      exact ih s
    case pos =>
      rw [if_pos kept, if_neg (by rw [kept]; decide)]
      by_cases deep : origin.length = maxDependencyDepth
      · rw [if_pos deep]
        exact ⟨dependency, by simp, .inl ⟨deep, rfl⟩⟩
      · rw [if_neg deep]
        by_cases closes : dependency.name ∈ origin
        · rw [if_pos closes]
          exact ⟨dependency, by simp, .inr ⟨deep, closes, rfl⟩⟩
        · rw [if_neg closes]
          have outcome := ih
            (s.require parent dependency (origin ++ [dependency.name]) .runtime)
          revert outcome
          cases addDependencies target parent origin rest
              (s.require parent dependency (origin ++ [dependency.name]) .runtime) with
          | ok next =>
            rintro ⟨entered, others⟩
            refine ⟨entered, fun y mem => ?_⟩
            rcases mem_cons.mp mem with same | later
            · exact same ▸ ⟨deep, closes⟩
            · exact others y later
          | error failure =>
            rintro ⟨y, mem, reason⟩
            exact ⟨y, mem_cons_of_mem _ mem, reason⟩

/-! ### Reading the search -/

/-- The selection of a state. -/
def SolverState.selection (catalog : List PackageCandidate) (state : SolverState) : Selection :=
  fun name => (state.selected[name]?).bind (catalog[·]?)

theorem mem_choices {catalog : List PackageCandidate} {name : String} {candidate : PackageCandidate}
    {index : Nat} :
    (candidate, index) ∈ choices catalog sdk name constraints
      ↔ catalog[index]? = some candidate ∧ candidate.manifest.name = name
        ∧ matchesAll candidate constraints sdk = true := by
  unfold choices stdSort
  rw [mem_insertionSort, mem_filter, mem_zipIdx_iff_getElem?]
  simp

theorem unresolved_eq_some {name : String} (pending : unresolved s = some (name, constraints)) :
    name ∈ s.constraints ∧ name ∉ s.selected ∧ constraints = s.constraintsOf name := by
  have mem := mem_of_find?_eq_some pending
  have fresh := List.find?_some pending
  rw [TreeMap.mem_toList_iff_getElem?_eq_some] at mem
  refine ⟨?_, ?_, ?_⟩
  · rw [TreeMap.mem_iff_isSome_getElem?, mem]
    rfl
  · intro selected
    rw [TreeMap.mem_iff_contains] at selected
    simp [selected] at fresh
  · simp [SolverState.constraintsOf, mem]

theorem unresolved_eq_none :
    unresolved s = none ↔ ∀ name ∈ s.constraints, name ∈ s.selected := by
  unfold unresolved
  rw [List.find?_eq_none]
  constructor
  · intro all name mem
    have found := all (name, s.constraints[name])
      (TreeMap.mem_toList_iff_getElem?_eq_some.mpr (TreeMap.getElem?_eq_some_getElem mem))
    simpa using found
  · rintro all ⟨name, _⟩ mem
    rw [TreeMap.mem_toList_iff_getElem?_eq_some] at mem
    have key : name ∈ s.constraints := by
      rw [TreeMap.mem_iff_isSome_getElem?, mem]
      rfl
    simpa using all name key

theorem matchesAll_iff {candidate : PackageCandidate}
    (named : ∀ constraint ∈ constraints, candidate.manifest.name = constraint.dependency.name) :
    matchesAll candidate constraints sdk = true
      ↔ candidate.manifest.sdk.accepts sdk = true
        ∧ ∀ constraint ∈ constraints, Satisfies sdk candidate constraint.dependency := by
  unfold matchesAll
  rw [Bool.and_eq_true, all_eq_true]
  refine and_congr_right fun ran => forall₂_congr fun constraint mem => ?_
  simp only [Bool.and_eq_true, beq_iff_eq]
  constructor
  · rintro ⟨⟨version, kind⟩, location⟩
    exact ⟨named constraint mem, version, kind, location, ran⟩
  · intro satisfied
    exact ⟨⟨satisfied.version, satisfied.kind⟩, satisfied.location⟩

theorem selectionMatches_iff {catalog : List PackageCandidate} :
    selectionMatches catalog sdk s = true
      ↔ ∀ name index, s.selected[name]? = some index → ∃ candidate,
        catalog[index]? = some candidate
          ∧ matchesAll candidate (s.constraintsOf name) sdk = true := by
  unfold selectionMatches
  rw [all_eq_true]
  simp only [Prod.forall, TreeMap.mem_toList_iff_getElem?_eq_some]
  refine forall₃_congr fun name index _ => ?_
  cases catalog[index]? <;> simp

/-! ### One level of the recursion -/

section Search

variable (root : PackageManifest) (sdk : PackageVersion) (target : TargetPlatform)
  (catalog : List PackageCandidate)

/-- One level of `solve`: the state it is called on, and a state it may call itself on. -/
inductive SearchStep (state next : SolverState) : Prop
  | intro {name : String} {constraints : List Constraint} {choice : PackageCandidate × Nat}
    (pending : unresolved state = some (name, constraints))
    (room : state.selected.size ≠ maxResolvedPackages)
    (offered : choice ∈ choices catalog sdk name constraints)
    (chosen : choose catalog sdk target state name constraints choice = .ok next)

/-- The state after a choice, before the earlier selections are checked. -/
def chosenState (state : SolverState) (name : String) (constraints : List Constraint)
    (choice : PackageCandidate × Nat) : SolverState :=
  requireAll name (fun dependency => originPath constraints ++ [dependency.name])
    (fun _ => .runtime) (runtimeDependencies choice.1.manifest target)
    { state with selected := state.selected.insertIfNew name choice.2 }

/-- The candidate has an active dependency that is too deep or closes the path to its parent. -/
def Pruned (constraints : List Constraint) (candidate : PackageCandidate) : Prop :=
  ∃ dependency ∈ runtimeDependencies candidate.manifest target,
    (originPath constraints).length = maxDependencyDepth
      ∨ dependency.name ∈ originPath constraints

theorem choose_spec (s : SolverState) (name : String) (constraints : List Constraint)
    (choice : PackageCandidate × Nat) :
    match choose catalog sdk target s name constraints choice with
    | .ok next => next = chosenState target s name constraints choice
        ∧ selectionMatches catalog sdk next = true ∧ ¬Pruned target constraints choice.1
    | .error none => selectionMatches catalog sdk (chosenState target s name constraints choice)
        = false ∧ ¬Pruned target constraints choice.1
    | .error (some _) => Pruned target constraints choice.1 := by
  have loop := addDependencies_spec target name (originPath constraints) choice.1.manifest
    { s with selected := s.selected.insertIfNew name choice.2 }
  unfold choose
  revert loop
  cases addDependencies target name (originPath constraints) choice.1.manifest.dependencies
      { s with selected := s.selected.insertIfNew name choice.2 } with
  | error failure =>
    rintro ⟨dep, mem, deep | closes⟩
    · exact ⟨dep, mem, .inl deep.1⟩
    · exact ⟨dep, mem, .inr closes.2.1⟩
  | ok next =>
    rintro ⟨entered, others⟩
    have kept : ¬Pruned target constraints choice.1 := by
      rintro ⟨dep, mem, deep | closes⟩
      · exact (others dep mem).1 deep
      · exact (others dep mem).2 closes
    by_cases checked : selectionMatches catalog sdk next = true
    · simp only [if_pos checked]
      exact ⟨entered, checked, kept⟩
    · simp only [if_neg checked]
      rw [chosenState, ← entered]
      exact ⟨by simpa using checked, kept⟩

theorem SearchStep.spec {s next : SolverState} (step : SearchStep sdk target catalog s next) :
    ∃ name candidate index, name ∈ s.constraints ∧ name ∉ s.selected
      ∧ s.selected.size ≠ maxResolvedPackages
      ∧ catalog[index]? = some candidate ∧ candidate.manifest.name = name
      ∧ next = chosenState target s name (s.constraintsOf name) (candidate, index)
      ∧ selectionMatches catalog sdk next = true := by
  obtain @⟨name, constraints, ⟨candidate, index⟩, pending, room, offered, chosen⟩ := step
  obtain ⟨constrained, fresh, same⟩ := unresolved_eq_some pending
  obtain ⟨entry, named, _⟩ := mem_choices.mp offered
  have outcome := choose_spec sdk target catalog s name constraints (candidate, index)
  rw [chosen] at outcome
  subst same
  exact ⟨name, candidate, index, constrained, fresh, room, entry, named, outcome.1, outcome.2.1⟩

/-! ### The invariant -/

/-- A dependency of the root or of a selected candidate. -/
def Asked (selection : Selection) (dependency : PackageDependency) : Prop :=
  dependency ∈ rootDependencies root target
    ∨ ∃ parent candidate, selection parent = some candidate
      ∧ dependency ∈ runtimeDependencies candidate.manifest target

/-- **The invariant of the search.** Constraints and edges are what the root and the selected
candidates ask for; every selected candidate meets the constraints on its name. -/
structure SolverInvariant (state : SolverState) : Prop where
  selected : ∀ name index, state.selected[name]? = some index → ∃ candidate,
    catalog[index]? = some candidate ∧ candidate.manifest.name = name
      ∧ matchesAll candidate (state.constraintsOf name) sdk = true
  selectedConstrained : ∀ name ∈ state.selected, name ∈ state.constraints
  constrained : ∀ name ∈ state.constraints, state.constraintsOf name ≠ []
  constraintAsked : ∀ name, ∀ constraint ∈ state.constraintsOf name,
    constraint.dependency.name = name ∧ Asked root target (state.selection catalog) constraint.dependency
  askedConstraint : ∀ dependency, Asked root target (state.selection catalog) dependency →
    ∃ constraint ∈ state.constraintsOf dependency.name, constraint.dependency = dependency
  constraintPath : ∀ name, ∀ constraint ∈ state.constraintsOf name,
    (∃ path, constraint.path = root.name :: (path ++ [name]))
      ∧ List.IsChain (Leads root target (state.selection catalog)) constraint.path
  edges : ∀ edge, edge ∈ state.edges ↔ SelectedEdge root target (state.selection catalog) edge
  reached : ∀ name ∈ state.constraints, Reached root target (state.selection catalog) name

theorem selection_rootState : (rootState root target).selection catalog = fun _ => none := by
  funext name
  unfold SolverState.selection
  rw [rootState_eq_requireAll, selected_requireAll]
  rfl

theorem asked_none {dep : PackageDependency} :
    Asked root target (fun _ => none) dep ↔ dep ∈ rootDependencies root target := by
  simp [Asked]

theorem invariant_rootState : SolverInvariant root sdk target catalog (rootState root target) := by
  have selection := selection_rootState root target catalog
  have nothing : (rootState root target).selected = ∅ := by
    rw [rootState_eq_requireAll, selected_requireAll]
  have constraints : ∀ name constraint, constraint ∈ (rootState root target).constraintsOf name
      ↔ ∃ dep ∈ rootDependencies root target, dep.name = name
        ∧ constraint = ⟨dep, [root.name, dep.name]⟩ := by
    intro name constraint
    rw [rootState_eq_requireAll, mem_constraintsOf_requireAll]
    simp [SolverState.constraintsOf]
  have keys : ∀ name, name ∈ (rootState root target).constraints
      ↔ ∃ dep ∈ rootDependencies root target, dep.name = name := by
    intro name
    rw [rootState_eq_requireAll, mem_constraints_requireAll]
    simp
  refine ⟨?_, ?_, ?_, ?_, ?_, ?_, ?_, ?_⟩
  · intro name index entry
    simp [nothing] at entry
  · intro name mem
    simp [nothing] at mem
  · intro name mem
    obtain ⟨dep, asked, named⟩ := (keys name).mp mem
    exact ne_nil_of_mem ((constraints name _).mpr ⟨dep, asked, named, rfl⟩)
  · intro name constraint mem
    obtain ⟨dep, asked, named, rfl⟩ := (constraints name constraint).mp mem
    exact ⟨named, .inl asked⟩
  · intro dep asked
    rw [selection, asked_none] at asked
    exact ⟨_, (constraints _ _).mpr ⟨dep, asked, rfl, rfl⟩, rfl⟩
  · intro name constraint mem
    obtain ⟨dep, asked, named, rfl⟩ := (constraints name constraint).mp mem
    refine ⟨⟨[], by simp [named]⟩, ?_⟩
    simp only [isChain_cons_cons, isChain_singleton, and_true]
    exact ⟨dep.scope, .fromRoot asked⟩
  · intro edge
    rw [rootState_eq_requireAll, mem_edges_requireAll, ← rootState_eq_requireAll, selection]
    constructor
    · rintro (absent | ⟨dep, asked, rfl⟩)
      · simp at absent
      · exact .fromRoot asked
    · rintro (⟨asked⟩ | ⟨selected, _⟩)
      · exact .inr ⟨_, asked, rfl⟩
      · cases selected
  · intro name mem
    obtain ⟨_, asked, rfl⟩ := (keys name).mp mem
    exact .fromRoot asked

/-! ### One choice -/

theorem minPath_eq (best next : List String) : minPath best next = best ∨ minPath best next = next := by
  unfold minPath
  split
  · exact .inr rfl
  · exact .inl rfl

theorem foldl_minPath_mem (constraints : List Constraint) (best : List String) :
    constraints.foldl (fun best next => minPath best next.path) best = best
      ∨ ∃ constraint ∈ constraints,
        constraints.foldl (fun best next => minPath best next.path) best = constraint.path := by
  induction constraints generalizing best with
  | nil => exact .inl rfl
  | cons constraint rest ih =>
    rw [foldl_cons]
    rcases ih (minPath best constraint.path) with first | ⟨later, mem, found⟩
    · rw [first]
      rcases minPath_eq best constraint.path with same | same
      · exact .inl same
      · exact .inr ⟨constraint, by simp, same⟩
    · exact .inr ⟨later, mem_cons_of_mem _ mem, found⟩

theorem originPath_mem {constraints : List Constraint} (nonempty : constraints ≠ []) :
    ∃ constraint ∈ constraints, originPath constraints = constraint.path := by
  cases constraints with
  | nil => exact absurd rfl nonempty
  | cons constraint rest =>
    rcases foldl_minPath_mem rest constraint.path with first | ⟨later, mem, found⟩
    · exact ⟨constraint, by simp, first⟩
    · exact ⟨later, mem_cons_of_mem _ mem, found⟩

section Choice

variable {root sdk target catalog} {next : SolverState} {name : String}
  {candidate : PackageCandidate} {index : Nat} {origin : List String}

theorem selection_eq_none (fresh : name ∉ s.selected) : s.selection catalog name = none := by
  unfold SolverState.selection
  rw [TreeMap.getElem?_eq_none fresh]
  rfl

variable (target catalog) in
/-- **What one choice changes**: the pending name is selected, and the dependencies of its candidate
are entered with the origin's path extended. -/
structure Extends (state next : SolverState) (name : String) (candidate : PackageCandidate)
    (index : Nat) (origin : List String) : Prop where
  fresh : name ∉ state.selected
  entry : catalog[index]? = some candidate
  selected : next.selected = state.selected.insertIfNew name index
  constraints : ∀ other constraint, constraint ∈ next.constraintsOf other
    ↔ constraint ∈ state.constraintsOf other
      ∨ ∃ dependency ∈ runtimeDependencies candidate.manifest target, dependency.name = other
        ∧ constraint = ⟨dependency, origin ++ [dependency.name]⟩
  keys : ∀ other, other ∈ next.constraints ↔ other ∈ state.constraints
    ∨ ∃ dependency ∈ runtimeDependencies candidate.manifest target, dependency.name = other
  edges : ∀ edge, edge ∈ next.edges ↔ edge ∈ state.edges
    ∨ ∃ dependency ∈ runtimeDependencies candidate.manifest target,
      edge = ⟨name, dependency.name, .runtime⟩

theorem extends_chosenState (target : TargetPlatform) (constraints : List Constraint)
    (fresh : name ∉ s.selected)
    (entry : catalog[index]? = some candidate) :
    Extends target catalog s (chosenState target s name constraints (candidate, index)) name
      candidate index (originPath constraints) where
  fresh := fresh
  entry := entry
  selected := selected_requireAll _ _ _ _ _
  constraints := mem_constraintsOf_requireAll _ _ _ _ _
  keys := mem_constraints_requireAll _ _ _ _ _
  edges := mem_edges_requireAll _ _ _ _ _

section

variable (extended : Extends target catalog s next name candidate index origin)
include extended

theorem Extends.selection
    (other : String) : next.selection catalog other
      = if name = other then some candidate else s.selection catalog other := by
  unfold SolverState.selection
  rw [extended.selected, TreeMap.getElem?_insertIfNew]
  by_cases same : name = other
  · subst same
    simp [extended.fresh, extended.entry]
  · simp [same]

theorem Extends.chosen :
    next.selection catalog name = some candidate := by
  rw [extended.selection, if_pos rfl]

theorem Extends.grows
    (y : String) (earlier : PackageCandidate)
    (selected : s.selection catalog y = some earlier) :
    next.selection catalog y = some earlier := by
  rw [extended.selection]
  split
  case isTrue same =>
    subst same
    rw [selection_eq_none extended.fresh] at selected
    cases selected
  case isFalse => exact selected

theorem Extends.asked
    (dep : PackageDependency) :
    Asked root target (next.selection catalog) dep
      ↔ Asked root target (s.selection catalog) dep
        ∨ dep ∈ runtimeDependencies candidate.manifest target := by
  constructor
  · rintro (fromRoot | ⟨parent, chosen, selected, mem⟩)
    · exact .inl (.inl fromRoot)
    · rw [extended.selection] at selected
      split at selected
      · cases selected
        exact .inr mem
      · exact .inl (.inr ⟨parent, chosen, selected, mem⟩)
  · rintro ((fromRoot | ⟨parent, earlier, selected, mem⟩) | mem)
    · exact .inl fromRoot
    · exact .inr ⟨parent, earlier, extended.grows parent earlier selected, mem⟩
    · exact .inr ⟨name, candidate, extended.chosen, mem⟩

theorem Extends.selectedEdge
    (edge : PackageEdge) :
    SelectedEdge root target (next.selection catalog) edge
      ↔ SelectedEdge root target (s.selection catalog) edge
        ∨ ∃ dep ∈ runtimeDependencies candidate.manifest target,
          edge = ⟨name, dep.name, .runtime⟩ := by
  constructor
  · intro mem
    cases mem with
    | fromRoot mem => exact .inl (.fromRoot mem)
    | fromSelected selected mem =>
      rw [extended.selection] at selected
      split at selected
      case isTrue same =>
        cases selected
        exact .inr ⟨_, mem, by rw [same]⟩
      case isFalse => exact .inl (.fromSelected selected mem)
  · rintro (earlier | ⟨_, entered, rfl⟩)
    · exact earlier.mono extended.grows
    · exact .fromSelected extended.chosen entered

theorem Extends.constraintPath
    (shape : ∃ path, origin = root.name :: (path ++ [name]))
    (chain : List.IsChain (Leads root target (s.selection catalog)) origin)
    {dep : PackageDependency}
    (entered : dep ∈ runtimeDependencies candidate.manifest target) :
    (∃ path, origin ++ [dep.name] = root.name :: (path ++ [dep.name]))
      ∧ List.IsChain (Leads root target (next.selection catalog)) (origin ++ [dep.name]) := by
  obtain ⟨path, rfl⟩ := shape
  refine ⟨⟨path ++ [name], by simp⟩, ?_⟩
  have leads : ∀ x second, Leads root target (s.selection catalog) x second →
      Leads root target (next.selection catalog) x second :=
    fun x second ⟨scope, edge⟩ => ⟨scope, edge.mono extended.grows⟩
  have last : Leads root target (next.selection catalog) name dep.name :=
    ⟨.runtime, .fromSelected extended.chosen entered⟩
  refine isChain_append.mpr ⟨chain.imp leads, by simp, ?_⟩
  intro x firstLast second secondHead
  rw [← cons_append, List.getLast?_concat] at firstLast
  simp only [List.head?_cons, Option.mem_def, Option.some.injEq] at firstLast secondHead
  exact firstLast ▸ secondHead ▸ last

section

variable (invariant : SolverInvariant root sdk target catalog s)
include invariant

theorem Extends.constrained (y : String)
    (mem : y ∈ next.constraints) : next.constraintsOf y ≠ [] := by
  rcases (extended.keys y).mp mem with earlier | ⟨dep, entered, rfl⟩
  · obtain ⟨constraint, present⟩ := exists_mem_of_ne_nil _ (invariant.constrained y earlier)
    exact ne_nil_of_mem ((extended.constraints y constraint).mpr (.inl present))
  · exact ne_nil_of_mem ((extended.constraints _ _).mpr (.inr ⟨dep, entered, rfl, rfl⟩))

theorem Extends.constraintAsked (y : String)
    (c : Constraint) (mem : c ∈ next.constraintsOf y) :
    c.dependency.name = y
      ∧ Asked root target (next.selection catalog) c.dependency := by
  rcases (extended.constraints y c).mp mem with
    earlier | ⟨dep, entered, same, rfl⟩
  · obtain ⟨sameName, before⟩ := invariant.constraintAsked y c earlier
    exact ⟨sameName, (extended.asked _).mpr (.inl before)⟩
  · exact ⟨same, (extended.asked _).mpr (.inr entered)⟩

theorem Extends.selectedConstrained
    (constrained : name ∈ s.constraints) (y : String) (mem : y ∈ next.selected) :
    y ∈ next.constraints := by
  rw [extended.selected, TreeMap.mem_insertIfNew] at mem
  rcases mem with same | earlier
  · rw [LawfulEqCmp.compare_eq_iff_eq] at same
    exact (extended.keys y).mpr (.inl (same ▸ constrained))
  · exact (extended.keys y).mpr (.inl (invariant.selectedConstrained y earlier))

theorem Extends.selectedMatch
    (named : candidate.manifest.name = name)
    (checked : selectionMatches catalog sdk next = true) (y : String) (i : Nat)
    (present : next.selected[y]? = some i) : ∃ found,
      catalog[i]? = some found ∧ found.manifest.name = y
        ∧ matchesAll found (next.constraintsOf y) sdk = true := by
  obtain ⟨found, foundEntry, fits⟩ := selectionMatches_iff.mp checked y i present
  refine ⟨found, foundEntry, ?_, fits⟩
  rw [extended.selected, TreeMap.getElem?_insertIfNew] at present
  split at present
  case isTrue same =>
    cases present
    rw [extended.entry] at foundEntry
    cases foundEntry
    rw [named]
    simpa using same.1
  case isFalse =>
    obtain ⟨_, earlierEntry, earlierNamed, _⟩ := invariant.selected y i present
    rw [earlierEntry] at foundEntry
    cases foundEntry
    exact earlierNamed

end

/-- **A choice that survives the check of the earlier selections keeps the invariant.** -/
theorem Extends.invariant
    (invariant : SolverInvariant root sdk target catalog s)
    (constrained : name ∈ s.constraints) (named : candidate.manifest.name = name)
    (originMember : ∃ constraint ∈ s.constraintsOf name, origin = constraint.path)
    (checked : selectionMatches catalog sdk next = true) :
    SolverInvariant root sdk target catalog next where
  selected := extended.selectedMatch invariant named checked
  selectedConstrained := extended.selectedConstrained invariant constrained
  constrained := extended.constrained invariant
  constraintAsked := extended.constraintAsked invariant
  askedConstraint dep wanted := by
    rcases (extended.asked dep).mp wanted with before | entered
    · obtain ⟨constraint, present, same⟩ := invariant.askedConstraint dep before
      exact ⟨constraint, (extended.constraints _ _).mpr (.inl present), same⟩
    · exact ⟨_, (extended.constraints _ _).mpr (.inr ⟨dep, entered, rfl, rfl⟩), rfl⟩
  constraintPath z constraint member := by
    rcases (extended.constraints z constraint).mp member with
      earlier | ⟨dep, entered, rfl, rfl⟩
    · obtain ⟨shape, chain⟩ := invariant.constraintPath z constraint earlier
      exact ⟨shape, chain.imp fun x y ⟨scope, edge⟩ => ⟨scope, edge.mono extended.grows⟩⟩
    · obtain ⟨x, firstMember, rfl⟩ := originMember
      obtain ⟨shape, chain⟩ := invariant.constraintPath name x firstMember
      exact extended.constraintPath shape chain entered
  edges edge := by
    rw [extended.edges, invariant.edges, extended.selectedEdge]
  reached z member := by
    rcases (extended.keys z).mp member with earlier | ⟨_, entered, rfl⟩
    · exact (invariant.reached z earlier).mono extended.grows
    · exact .fromSelected ((invariant.reached name constrained).mono extended.grows) extended.chosen
        entered

end

/-- **Every level of the search keeps the invariant**, and selects one name more. -/
theorem SearchStep.invariant (step : SearchStep sdk target catalog s next)
    (invariant : SolverInvariant root sdk target catalog s) :
    SolverInvariant root sdk target catalog next ∧ next.selected.size = s.selected.size + 1 := by
  obtain ⟨name, _, _, constrained, fresh, _, entry, named, rfl, checked⟩ := step.spec
  have extended := extends_chosenState target (s.constraintsOf name) fresh entry
  refine ⟨extended.invariant invariant constrained named
    (originPath_mem (invariant.constrained name constrained)) checked, ?_⟩
  rw [extended.selected, TreeMap.size_insertIfNew, if_neg fresh]

end Choice

end Search

end FoundationLang.Package
