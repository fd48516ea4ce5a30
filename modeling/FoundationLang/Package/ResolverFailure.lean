/-
**When a rejection is explained.**

`resolvePackageGraph` dereferences the shared failure whenever `solve` returns false. The failure is
set at four places: a complete graph that is cyclic, a full selection, a pending name that no
candidate matches, and a choice whose dependencies are too deep or close their path. A choice that
is abandoned because an earlier selection no longer matches sets nothing.
-/

import FoundationLang.Package.ResolverSound

namespace FoundationLang.Package

open Std Relation

section Explain

variable (sdk : PackageVersion) (target : TargetPlatform) (catalog : List PackageCandidate)
variable {recur : SolverState → Option Failure → Option SolverState × Option Failure}
  {state : SolverState} {root : PackageManifest}

/-- **A level of the search that explains itself**: nothing is pending; or the selection is full;
or no candidate matches the pending name; or a matching candidate has an active dependency that is
too deep or closes the path to it. -/
def Explains (state : SolverState) : Prop :=
  match unresolved state with
  | none => True
  | some (name, constraints) =>
    state.selected.size = maxResolvedPackages
      ∨ choices catalog sdk name constraints = []
      ∨ ∃ choice ∈ choices catalog sdk name constraints, Pruned target constraints choice.1

/-- The outcome of a search that may be used: a final state, or a failure. -/
def Explained (outcome : Option SolverState × Option Failure) : Prop :=
  outcome.1 = none → outcome.2.isSome

variable {sdk target catalog}

/-! ### A failure is never lost -/

theorem isSome_rememberFailure (e : Option Failure) (next : Failure) :
    (rememberFailure e next).isSome := by
  cases e <;> rfl

theorem tryChoices_keeps {choose : PackageCandidate × Nat → Except (Option Failure) SolverState}
    (keeps : ∀ next e, e.isSome → (recur next e).2.isSome)
    (options : List (PackageCandidate × Nat)) {e : Option Failure} (set : e.isSome) :
    (tryChoices choose recur options e).2.isSome := by
  induction options generalizing e with
  | nil => exact set
  | cons choice rest ih =>
    simp only [tryChoices]
    split
    case h_1 => exact ih (isSome_rememberFailure e _)
    case h_2 => exact ih set
    case h_3 next _ =>
      have kept := keeps next e set
      split
      case h_1 called => rwa [called] at kept
      case h_2 called =>
        rw [called] at kept
        exact ih kept

theorem solve_keeps (fuel : Nat) (state : SolverState) {e : Option Failure}
    (set : e.isSome) : (solve catalog sdk target fuel state e).2.isSome := by
  induction fuel generalizing state e with
  | zero => exact set
  | succ fuel ih =>
    simp only [solve]
    split
    · split
      · exact isSome_rememberFailure e _
      · exact set
    · split
      · exact isSome_rememberFailure e _
      · split
        · exact isSome_rememberFailure e _
        · exact tryChoices_keeps (fun next _ => ih next) _ set

/-! ### An explaining level explains the search -/

theorem tryChoices_explained {choose : PackageCandidate × Nat → Except (Option Failure) SolverState}
    (keeps : ∀ next e, e.isSome → (recur next e).2.isSome)
    {options : List (PackageCandidate × Nat)} {choice : PackageCandidate × Nat}
    (mem : choice ∈ options)
    (explained : (∃ e, choose choice = .error (some e))
      ∨ ∃ next, choose choice = .ok next ∧ ∀ e, Explained (recur next e))
    (e : Option Failure) : Explained (tryChoices choose recur options e) := by
  induction options generalizing e with
  | nil => cases mem
  | cons x rest ih =>
    rcases List.mem_cons.mp mem with same | later
    · subst same
      rcases explained with ⟨error, failed⟩ | ⟨next, chosen, outcome⟩
      · simp only [tryChoices, failed]
        exact fun _ => tryChoices_keeps keeps rest (isSome_rememberFailure e error)
      · simp only [tryChoices, chosen]
        have called := outcome e
        revert called
        rcases recur next e with ⟨_ | _, _⟩
        · exact fun called _ => tryChoices_keeps keeps rest (called rfl)
        · exact fun _ rejected => by cases rejected
    · simp only [tryChoices]
      split
      · exact ih later _
      · exact ih later _
      · split
        · exact fun rejected => by cases rejected
        · exact ih later _

theorem choose_of_pruned {name : String} {constraints : List Constraint}
    {choice : PackageCandidate × Nat} (pruned : Pruned target constraints choice.1) :
    ∃ failure, choose catalog sdk target state name constraints choice = .error (some failure) := by
  have outcome := choose_spec sdk target catalog state name constraints choice
  revert outcome
  cases choose catalog sdk target state name constraints choice with
  | ok => exact fun outcome => absurd pruned outcome.2.2
  | error failure =>
    cases failure with
    | none => exact fun outcome => absurd pruned outcome.2
    | some failure => exact fun _ => ⟨failure, rfl⟩

theorem solve_explained_of_explains (explains : Explains sdk target catalog state) (fuel : Nat)
    (e : Option Failure) : Explained (solve catalog sdk target (fuel + 1) state e) := by
  unfold Explains at explains
  simp only [solve]
  cases pending : unresolved state with
  | none =>
    simp only
    split
    · exact fun _ => isSome_rememberFailure e _
    · exact fun rejected => by cases rejected
  | some entry =>
    obtain ⟨_, _⟩ := entry
    rw [pending] at explains
    simp only
    split
    · exact fun _ => isSome_rememberFailure e _
    · rename_i room
      rcases explains with full | empty | ⟨_, offered, pruned⟩
      · exact absurd full room
      · rw [empty]
        exact fun _ => isSome_rememberFailure e _
      · split
        · exact fun _ => isSome_rememberFailure e _
        · rename_i x rest options
          rw [options] at offered
          exact tryChoices_explained (fun next _ => solve_keeps fuel next) offered
            (.inl (choose_of_pruned pruned)) e

theorem solve_explained {final : SolverState}
    (reached : ReflTransGen (SearchStep sdk target catalog) state final)
    (explains : Explains sdk target catalog final)
    (inv : SolverInvariant root sdk target catalog state)
    (small : state.selected.size ≤ maxResolvedPackages) (fuel : Nat)
    (enough : maxResolvedPackages < fuel + state.selected.size) (e : Option Failure) :
    Explained (solve catalog sdk target fuel state e) := by
  induction reached using ReflTransGen.head_induction_on generalizing fuel e with
  | refl =>
    obtain ⟨fuel, rfl⟩ := Nat.exists_eq_succ_of_ne_zero (n := fuel) (by omega)
    exact solve_explained_of_explains explains fuel e
  | head step _ ih =>
    obtain ⟨kept, larger⟩ := step.invariant inv
    obtain ⟨pending, room, offered, chosen⟩ := step
    obtain ⟨fuel, rfl⟩ := Nat.exists_eq_succ_of_ne_zero (n := fuel) (by omega)
    have onward := ih kept (by omega) fuel (by omega)
    simp only [solve, pending, if_neg room]
    split
    case h_1 empty =>
      rw [empty] at offered
      cases offered
    case h_2 options =>
      rw [options] at offered
      exact tryChoices_explained (fun next _ => solve_keeps fuel next) offered
        (.inr ⟨_, chosen, onward⟩) e

/-! ### Without one the search ends in silence -/

theorem tryChoices_silent {choose : PackageCandidate × Nat → Except (Option Failure) SolverState}
    (options : List (PackageCandidate × Nat))
    (silent : ∀ choice ∈ options, choose choice = .error none
      ∨ ∃ next, choose choice = .ok next ∧ recur next none = (none, none)) :
    tryChoices choose recur options none = (none, none) := by
  induction options with
  | nil => rfl
  | cons choice rest ih =>
    have tail := ih fun y mem => silent y (List.mem_cons_of_mem _ mem)
    rcases silent choice (by simp) with contradicted | ⟨_, chosen, called⟩
    · simp only [tryChoices, contradicted, tail]
    · simp only [tryChoices, chosen, called, tail]

/-- A search none of whose levels explains itself returns false without a failure. -/
theorem solve_silent (fuel : Nat) (state : SolverState)
    (unexplained : ∀ final, ReflTransGen (SearchStep sdk target catalog) state final →
      ¬Explains sdk target catalog final) :
    solve catalog sdk target fuel state none = (none, none) := by
  induction fuel generalizing state with
  | zero => rfl
  | succ fuel ih =>
    have here := unexplained state .refl
    unfold Explains at here
    simp only [solve]
    cases pending : unresolved state with
    | none => simp [pending] at here
    | some entry =>
      obtain ⟨name, constraints⟩ := entry
      rw [pending] at here
      simp only [not_or, not_exists, not_and] at here
      obtain ⟨room, nonempty, unpruned⟩ := here
      simp only [if_neg room]
      split
      case h_1 empty => exact absurd empty nonempty
      case h_2 x rest options =>
        refine tryChoices_silent _ fun choice offered => ?_
        rw [← options] at offered
        have outcome := choose_spec sdk target catalog state name constraints choice
        cases chosen : choose catalog sdk target state name constraints choice with
        | ok next =>
          refine .inr ⟨next, rfl, ih next fun final reached => ?_⟩
          exact unexplained final (.head (.intro pending room offered chosen) reached)
        | error failure =>
          cases failure with
          | none => exact .inl rfl
          | some =>
            rw [chosen] at outcome
            exact absurd outcome (unpruned choice offered)

/-! ### The root call -/

theorem exists_explains (explained : Explained (solveRoot root sdk target catalog)) :
    ∃ state, ReflTransGen (SearchStep sdk target catalog) (rootState root target) state
      ∧ Explains sdk target catalog state := by
  by_contra unexplained
  have silent := solve_silent (maxResolvedPackages + 1) (rootState root target)
    fun final reached explains => unexplained ⟨final, reached, explains⟩
  rw [solveRoot, silent] at explained
  exact absurd (explained rfl) (by simp)

theorem solveRoot_explained
    (reached : ReflTransGen (SearchStep sdk target catalog) (rootState root target) state)
    (explains : Explains sdk target catalog state) :
    Explained (solveRoot root sdk target catalog) := by
  have nothing : (rootState root target).selected.size = 0 := by
    rw [rootState_eq_requireAll, selected_requireAll]
    rfl
  exact solve_explained reached explains (invariant_rootState root sdk target catalog) (by omega)
    (maxResolvedPackages + 1) (by omega) none

/-- **A rejection is explained exactly when some level of the search explains itself.** -/
theorem solveRoot_explained_iff (root : PackageManifest) (sdk : PackageVersion)
    (target : TargetPlatform) (catalog : List PackageCandidate) :
    ((solveRoot root sdk target catalog).1 = none → (solveRoot root sdk target catalog).2.isSome)
      ↔ ∃ state, ReflTransGen (SearchStep sdk target catalog) (rootState root target) state
        ∧ Explains sdk target catalog state :=
  ⟨exists_explains, fun ⟨_, reached, explains⟩ => solveRoot_explained reached explains⟩

end Explain

/-- The root asks for any `a` and any `b`. -/
def silentRoot : PackageManifest where
  name := "app"
  sdk := ⟨.any, {}⟩
  dependencies := [{ name := "a", requirement := ⟨.any, {}⟩, location := "r" },
    { name := "b", requirement := ⟨.any, {}⟩, location := "r" }]

/-- The only `a` is of version `1.0.0`, and the only `b` asks for version 2 of `a`. -/
def silentCatalog : List PackageCandidate :=
  [{ manifest := { name := "a", version := { major := 1 }, sdk := ⟨.any, {}⟩ }
     digest := "sha256:0000000000000000000000000000000000000000000000000000000000000000"
     location := "r" },
   { manifest := { name := "b", version := { major := 1 }, sdk := ⟨.any, {}⟩
                   dependencies := [{ name := "a", requirement := ⟨.caret, { major := 2 }⟩
                                      location := "r" }] }
     digest := "sha256:0000000000000000000000000000000000000000000000000000000000000000"
     location := "r" }]

/-- **A rejection without a failure**, and `resolvePackageGraph` dereferences it. -/
theorem solveRoot_silent :
    ¬((solveRoot silentRoot {} .linux silentCatalog).1 = none →
        (solveRoot silentRoot {} .linux silentCatalog).2.isSome)
      ∧ resolvePackageGraph sampleEnvironment "foundation.toml" silentRoot {} .linux silentCatalog
        = none := by
  have outcome : solveRoot silentRoot {} .linux silentCatalog = (none, none) := rfl
  rw [outcome]
  exact ⟨by simp, rfl⟩

end FoundationLang.Package
