/-
**What `validatePackageLockGraph` accepts.**

The nodes of the graph are an arena of records with distinct names, which is a table of functions on
the names (`arena`). In these terms the two loops over the graph are the rounds of the library.

* `countEdges_arena`, `reachNodes_arena`, `removeNodes_arena` — the three loops on a table.
-/

import FoundationLang.Package.LockText
import FoundationLang.Selfhost.Lock

namespace FoundationLang.Selfhost

open Package Library Relation List Function

variable {names : List String} {edges : List PackageEdge}

/-! ### Tables of nodes -/

/-- The nodes of some names. -/
def arena (names : List String) (incoming : String → Nat) (reached removed : String → Bool) :
    List LockNode :=
  names.map fun name => ⟨name, incoming name, reached name, removed name⟩

section Tables

variable {incoming : String → Nat} {reached removed : String → Bool} {name : String}

theorem findLockNode_arena (mem : name ∈ names) :
    findLockNode (arena names incoming reached removed) name
      = some ⟨name, incoming name, reached name, removed name⟩ := by
  unfold findLockNode arena
  induction names with
  | nil => cases mem
  | cons x rest ih =>
    rw [List.map_cons, List.find?_cons]
    by_cases same : x = name
    · simp [same]
    · rw [show ((x == name) = false) from by simpa using same]
      exact ih ((mem_cons.mp mem).resolve_left (Ne.symm same))

theorem findLockNode_isNone :
    (findLockNode (arena names incoming reached removed) name).isNone = true ↔ name ∉ names := by
  unfold findLockNode arena
  rw [Option.isNone_iff_eq_none, List.find?_eq_none]
  simp
  exact ⟨fun y mem => y name mem rfl, fun absent y mem same =>
    absent (same ▸ mem)⟩

theorem map_update_of_notMem {node : String → LockNode} {v : LockNode} (absent : name ∉ names) :
    names.map (update node name v) = names.map node := by
  refine map_congr_left fun y mem => ?_
  have ne : y ≠ name := by
    rintro rfl
    exact absent mem
  rw [update_of_ne ne]

theorem changeNode_map (distinct : names.Nodup) (mem : name ∈ names) {node : String → LockNode}
    (named : ∀ name, (node name).name = name) (change : LockNode → LockNode) :
    changeNode name change (names.map node)
      = some (names.map (update node name (change (node name)))) := by
  induction names with
  | nil => cases mem
  | cons x rest ih =>
    obtain ⟨apart, distinct⟩ := nodup_cons.mp distinct
    rw [List.map_cons, changeNode, named, List.map_cons]
    by_cases same : x = name
    · subst same
      rw [if_pos (by simp), update_self, map_update_of_notMem apart]
    · rw [if_neg (by simpa using same), update_of_ne same,
        ih distinct ((mem_cons.mp mem).resolve_left (Ne.symm same))]
      rfl

theorem changeNode_incoming (distinct : names.Nodup) (mem : name ∈ names) (count : Nat → Nat) :
    changeNode name (fun node => { node with incoming := count node.incoming })
        (arena names incoming reached removed)
      = some (arena names (update incoming name (count (incoming name))) reached
        removed) := by
  unfold arena
  rw [changeNode_map distinct mem fun _ => rfl]
  congr 2
  funext y
  by_cases same : y = name
  · subst same
    simp
  · simp [same]

theorem changeNode_reached (distinct : names.Nodup) (mem : name ∈ names) :
    changeNode name (fun node => { node with reached := true })
        (arena names incoming reached removed)
      = some (arena names incoming (update reached name true) removed) := by
  unfold arena
  rw [changeNode_map distinct mem fun _ => rfl]
  congr 2
  funext y
  by_cases same : y = name
  · subst same
    simp
  · simp [same]

end Tables

/-! ### The loops on a table -/

/-- An edge that the loop over the edges lets through. -/
def EdgeKnown (rootName : String) (names : List String) (edge : PackageEdge) : Prop :=
  edge.parent ≠ edge.dependency ∧ edge.parent ∈ names ∧ edge.dependency ∈ names
    ∧ (edge.scope = .test → edge.parent = rootName)

theorem countEdges_arena (rootName : String) (distinct : names.Nodup) (edges : List PackageEdge)
    (incoming : String → Nat) (reached removed : String → Bool) :
    ((∀ edge ∈ edges, EdgeKnown rootName names edge)
        ∧ countEdges rootName (arena names incoming reached removed) edges
          = some (.ok (arena names
            (fun name => incoming name + edges.countP (·.dependency = name)) reached removed)))
      ∨ (¬(∀ edge ∈ edges, EdgeKnown rootName names edge)
        ∧ ∃ message, countEdges rootName (arena names incoming reached removed) edges
          = some (.error message)) := by
  induction edges generalizing incoming with
  | nil => exact .inl ⟨by simp, rfl⟩
  | cons edge rest ih =>
    rw [countEdges]
    by_cases self : edge.parent = edge.dependency
    · exact .inr ⟨fun all => (all edge mem_cons_self).1 self, _, if_pos self⟩
    rw [if_neg self]
    cases passes : ((findLockNode (arena names incoming reached removed) edge.parent).isNone ||
        (findLockNode (arena names incoming reached removed) edge.dependency).isNone ||
        (edge.scope == .test && edge.parent != rootName)) with
    | true =>
      refine .inr ⟨fun all => ?_, _, rfl⟩
      obtain ⟨_, parent, dep, scope⟩ := all edge mem_cons_self
      rw [findLockNode_arena parent, findLockNode_arena dep] at passes
      cases kind : edge.scope with
      | runtime => simp [kind] at passes
      | test => simp [kind, scope kind] at passes
    | false =>
      rw [Bool.or_eq_false_iff, Bool.or_eq_false_iff] at passes
      obtain ⟨⟨one, two⟩, scope⟩ := passes
      have parent : edge.parent ∈ names := by
        by_contra absent
        rw [findLockNode_isNone.mpr absent] at one
        cases one
      have dep : edge.dependency ∈ names := by
        by_contra absent
        rw [findLockNode_isNone.mpr absent] at two
        cases two
      have known : EdgeKnown rootName names edge := by
        refine ⟨self, parent, dep, fun kind => ?_⟩
        simpa [kind] using scope
      rw [changeNode_incoming distinct dep (· + 1)]
      have onward := ih (update incoming edge.dependency (incoming edge.dependency + 1))
      have counts : (fun name => update incoming edge.dependency
            (incoming edge.dependency + 1) name + rest.countP (·.dependency = name))
          = fun name => incoming name + (edge :: rest).countP (·.dependency = name) := by
        funext name
        rw [countP_cons]
        by_cases same : name = edge.dependency
        · subst same
          simp
          omega
        · simp [same, Ne.symm same]
      rw [counts] at onward
      rcases onward with ⟨all, found⟩ | ⟨some, failed⟩
      · refine .inl ⟨fun y mem => ?_, found⟩
        rcases mem_cons.mp mem with rfl | later
        · exact known
        · exact all y later
      · exact .inr ⟨fun all => some fun y mem => all y (mem_cons_of_mem _ mem),
          failed⟩

/-- The ends of edges. -/
abbrev endsOf (edges : List PackageEdge) : List (String × String) :=
  edges.map PackageEdge.ends

/-- **The loop that looks for the reachable packages.** -/
theorem reachNodes_arena (distinct : names.Nodup)
    (known : ∀ edge ∈ edges, edge.parent ∈ names ∧ edge.dependency ∈ names) (fuel : Nat)
    (incoming : String → Nat) (reached removed : String → Bool) :
    reachNodes edges fuel (arena names incoming reached removed)
      = (markRounds (endsOf edges) fuel reached).map
        fun reached => arena names incoming reached removed := by
  have round : ∀ edges : List PackageEdge,
      (∀ edge ∈ edges, edge.parent ∈ names ∧ edge.dependency ∈ names) →
      ∀ state : (String → Bool) × Bool,
        edges.foldlM reachEdge (arena names incoming state.1 removed, state.2)
          = some (arena names incoming ((endsOf edges).foldl markEdge state).1 removed,
            ((endsOf edges).foldl markEdge state).2) := by
    intro edges
    induction edges with
    | nil => exact fun _ _ => rfl
    | cons edge rest ih =>
      intro known state
      have here : reachEdge (arena names incoming state.1 removed, state.2) edge
          = some (arena names incoming (markEdge state edge.ends).1 removed,
            (markEdge state edge.ends).2) := by
        unfold reachEdge
        rw [findLockNode_arena (known edge mem_cons_self).1,
          findLockNode_arena (known edge mem_cons_self).2]
        simp only [Option.bind_eq_bind, Option.bind_some]
        rw [changeNode_reached distinct (known edge mem_cons_self).2]
        unfold markEdge PackageEdge.ends
        split <;> rfl
      rw [foldlM_cons, here]
      exact ih (fun y mem => known y (mem_cons_of_mem _ mem)) _
  induction fuel generalizing reached with
  | zero => rfl
  | succ fuel ih =>
    rw [reachNodes, round edges known (reached, false), markRounds]
    show (if (markRound (endsOf edges) reached).2 = true then _ else _) = _
    cases changed : (markRound (endsOf edges) reached).2 with
    | true => exact ih _
    | false => rfl

theorem foldlM_releaseEdge (distinct : names.Nodup) (name : String)
    (reached removed : String → Bool) (edges : List PackageEdge)
    (known : ∀ edge ∈ edges, edge.dependency ∈ names) (incoming : String → Nat) :
    edges.foldlM (releaseEdge name) (arena names incoming reached removed)
      = some (arena names ((endsOf edges).foldl (dropEdge name) incoming) reached removed) := by
  induction edges generalizing incoming with
  | nil => rfl
  | cons edge rest ih =>
    have here : releaseEdge name (arena names incoming reached removed) edge
        = some (arena names (dropEdge name incoming edge.ends) reached removed) := by
      unfold releaseEdge dropEdge PackageEdge.ends
      rw [changeNode_incoming distinct (known edge mem_cons_self) (· - 1)]
      by_cases start : edge.parent = name
      · rw [if_pos start, if_pos start]
      · rw [if_neg start, if_neg start]
    rw [foldlM_cons, here]
    exact ih (fun y mem => known y (mem_cons_of_mem _ mem)) _

/-- The state of the loop as a table. -/
def Removal.ofSweep (names : List String) (reached : String → Bool) (state : Sweep String) :
    Removal :=
  ⟨arena names state.incoming reached state.removed, state.visited, state.changed⟩

theorem removeNode_arena {before rest : List String} {name : String}
    (distinct : (before ++ name :: rest).Nodup)
    (known : ∀ edge ∈ edges, edge.dependency ∈ before ++ name :: rest) (reached : String → Bool)
    (s : Sweep String) :
    removeNode edges (.ofSweep (before ++ name :: rest) reached s) before.length
      = some (.ofSweep (before ++ name :: rest) reached (sweepNode (endsOf edges) s name)) := by
  have here : (arena (before ++ name :: rest) s.incoming reached s.removed)[before.length]?
      = some ⟨name, s.incoming name, reached name, s.removed name⟩ := by
    simp [arena]
  obtain ⟨_, y, apart⟩ := nodup_append.mp distinct
  have fresh : name ∉ before := fun mem => apart name mem name mem_cons_self rfl
  have replaced : (arena (before ++ name :: rest) s.incoming reached s.removed).set
        before.length ⟨name, s.incoming name, reached name, true⟩
      = arena (before ++ name :: rest) s.incoming reached
        (update s.removed name true) := by
    have others : ∀ names : List String, name ∉ names →
        arena names s.incoming reached (update s.removed name true)
          = arena names s.incoming reached s.removed := by
      intro names absent
      refine map_congr_left fun z mem => ?_
      have ne : z ≠ name := by
        rintro rfl
        exact absent mem
      rw [update_of_ne ne]
    have split : ∀ removed, arena (before ++ name :: rest) s.incoming reached removed
        = arena before s.incoming reached removed ++
          ⟨name, s.incoming name, reached name, removed name⟩ ::
            arena rest s.incoming reached removed := by
      intro removed
      simp [arena]
    have length : (arena before s.incoming reached s.removed).length = before.length := by
      simp [arena]
    rw [split, split, others before fresh, others rest (nodup_cons.mp y).1,
      update_self, set_append_right _ _ (by omega), length, Nat.sub_self,
      set_cons_zero]
  unfold removeNode Removal.ofSweep sweepNode
  rw [here]
  show (if (!s.removed name && s.incoming name == 0) = true then _ else _) = _
  split
  · rw [replaced, foldlM_releaseEdge distinct name reached _ edges known]
    rfl
  · rfl

theorem removeNodes_arena (distinct : names.Nodup) (known : ∀ edge ∈ edges, edge.dependency ∈ names)
    (reached : String → Bool) (fuel : Nat) (state : Sweep String) :
    removeNodes edges fuel (.ofSweep names reached state)
      = sweepRounds (endsOf edges) names fuel state := by
  have round : ∀ (s rest : List String) (state : Sweep String), s ++ rest = names →
      (List.range' s.length rest.length).foldlM (removeNode edges)
          (.ofSweep names reached state)
        = some (.ofSweep names reached (rest.foldl (sweepNode (endsOf edges)) state)) := by
    intro s rest
    induction rest generalizing s with
    | nil => exact fun _ _ => rfl
    | cons name rest ih =>
      rintro state rfl
      rw [length_cons, List.range'_succ, foldlM_cons,
        removeNode_arena distinct known reached state]
      have onward := ih (s ++ [name]) (sweepNode (endsOf edges) state name) (by simp)
      rw [length_append] at onward
      exact onward
  induction fuel generalizing state with
  | zero => rfl
  | succ fuel ih =>
    have length : (Removal.ofSweep names reached state).nodes.length = names.length := by
      simp [Removal.ofSweep, arena]
    have start : { Removal.ofSweep names reached state with changed := false }
        = Removal.ofSweep names reached { state with changed := false } := rfl
    have whole := round [] names { state with changed := false } rfl
    rw [length_nil] at whole
    rw [removeNodes, length, start, range_eq_range', whole, sweepRounds]
    show (if _ = true then _ else _) = _
    split
    · rename_i changed
      exact (ih _).trans (if_pos changed).symm
    · rename_i still
      exact (if_neg still).symm

/-- **The loops accept the graphs in which the start reaches every node and none reaches itself.** -/
theorem checkGraph_arena {rootName : String} (distinct : names.Nodup) (edges : List PackageEdge) :
    ∃ outcome, checkGraph rootName edges
        (arena names (fun _ => 0) (fun name => name == rootName) fun _ => false) = some outcome
      ∧ (outcome = none ↔ (∀ edge ∈ edges, EdgeKnown rootName names edge)
        ∧ (∀ name ∈ names, ReflTransGen (EdgeOf (endsOf edges)) rootName name)
        ∧ Acyclic (EdgeOf (endsOf edges))) := by
  unfold checkGraph
  rcases countEdges_arena rootName distinct edges (fun _ => 0) (fun name => name == rootName)
    (fun _ => false) with ⟨known, counted⟩ | ⟨unknown, message, failed⟩
  case inr =>
    rw [failed]
    exact ⟨_, rfl, iff_of_false (by simp) fun valid => unknown valid.1⟩
  rw [counted]
  have ends : ∀ edge ∈ edges, edge.parent ∈ names ∧ edge.dependency ∈ names :=
    fun edge mem => ⟨(known edge mem).2.1, (known edge mem).2.2.1⟩
  have inside : ∀ edge ∈ endsOf edges, edge.2 ∈ names := by
    intro pair mem
    obtain ⟨edge, present, rfl⟩ := mem_map.mp mem
    exact (ends edge present).2
  have length : ∀ incoming reached removed, (arena names incoming reached removed).length
      = names.length := by
    intro incoming reached removed
    simp [arena]
  have enough : names.countP (fun name => !(name == rootName)) < names.length + 1 :=
    Nat.lt_succ_of_le countP_le_length
  obtain ⟨reached, marked, reaches⟩ := markRounds_spec inside enough
  simp only [Option.bind_eq_bind, Option.bind_some]
  rw [length, reachNodes_arena distinct ends, marked, Option.map_some, Option.bind_some, length]
  have every : ((arena names (fun name => 0 + edges.countP (·.dependency = name)) reached
        fun _ => false).any fun node => !node.reached) = false
      ↔ ∀ name ∈ names, ReflTransGen (EdgeOf (endsOf edges)) rootName name := by
    simp only [arena, any_map, any_eq_false, comp_apply, Bool.not_eq_true',
      Bool.not_eq_false, reaches, beq_iff_eq, exists_eq_left]
  cases missing : ((arena names (fun name => 0 + edges.countP (·.dependency = name)) reached
      fun _ => false).any fun node => !node.reached) with
  | true =>
    refine ⟨_, rfl, iff_of_false (by simp) fun valid => ?_⟩
    rw [every.mpr valid.2.1] at missing
    cases missing
  | false =>
    have start : SweepInvariant (endsOf edges) names
        ⟨fun name => 0 + edges.countP (·.dependency = name), fun _ => false, 0, false⟩ := by
      refine sweepInvariant_start names fun name => ?_
      rw [Nat.zero_add, countP_map]
      rfl
    have edgesInside : ∀ x y, EdgeOf (endsOf edges) x y →
        x ∈ names ∧ y ∈ names := by
      intro x y mem
      obtain ⟨edge, present, same⟩ := mem_map.mp mem
      cases same
      exact ends edge present
    obtain ⟨visited, swept, counts⟩ := sweepRounds_spec distinct edgesInside start
      (Nat.lt_succ_self names.length)
    have removed : removeNodes edges (names.length + 1)
        ⟨arena names (fun name => 0 + edges.countP (·.dependency = name)) reached fun _ => false, 0,
          false⟩ = some visited := by
      rw [← swept, ← removeNodes_arena distinct (fun edge mem => (ends edge mem).2) reached]
      rfl
    simp only [Bool.false_eq_true, if_false, removed, Option.bind_some]
    by_cases all : visited = names.length
    · rw [if_neg (not_not.mpr all)]
      exact ⟨_, rfl, iff_of_true rfl ⟨known, every.mp missing, counts.mp all⟩⟩
    · rw [if_pos all]
      exact ⟨_, rfl, iff_of_false (by simp) fun valid => all (counts.mpr valid.2.2)⟩

/-! ### Graphs agree -/

/-- The package that the self-hosted compiler keeps. -/
def joinPackage (package : Package.LockedPackage) : LockedPackage :=
  ⟨package.name, joinVersion package.version, package.digest, package.kind, package.location⟩

/-- The lock that the self-hosted compiler keeps. -/
def joinLock (lock : Package.PackageLock) : PackageLock :=
  ⟨lock.rootName, joinVersion lock.rootVersion, lock.target, lock.nativeLibrary, lock.foreign,
    lock.packages.map joinPackage, lock.edges⟩

theorem edgeOf_eq_depends (lock : Package.PackageLock) : EdgeOf (endsOf lock.edges) = lock.Depends := by
  funext parent dep
  refine propext ⟨fun edge => ?_, fun ⟨scope, mem⟩ => mem_map.mpr ⟨_, mem, rfl⟩⟩
  obtain ⟨⟨_, _, scope⟩, mem, same⟩ := mem_map.mp edge
  cases same
  exact ⟨scope, mem⟩

theorem lockNodes_joinLock {lock : Package.PackageLock}
    (identity : ∀ package ∈ lock.packages, package.name ≠ lock.rootName) :
    lockNodes (joinLock lock) = arena (lock.rootName :: lock.packages.map (·.name)) (fun _ => 0)
      (fun name => name == lock.rootName) fun _ => false := by
  unfold lockNodes arena joinLock
  rw [List.map_cons, List.map_map, List.map_map]
  have root : (lock.rootName == lock.rootName) = true := beq_self_eq_true _
  dsimp only
  rw [root]
  congr 1
  refine map_congr_left fun package mem => ?_
  show (⟨package.name, 0, false, false⟩ : LockNode) = ⟨package.name, 0, package.name == _, false⟩
  rw [beq_eq_false_iff_ne.mpr (identity package mem)]

/-- **Both compilers accept the same graphs**, where no edge occurs twice. -/
theorem validatePackageLockGraph_iff {lock : Package.PackageLock}
    (distinct : (lock.packages.map (·.name)).Nodup)
    (unique : (lock.edges.map PackageEdge.ends).Nodup)
    (locations : ∀ package ∈ lock.packages,
      validPackageLocation package.kind package.location
        = validLocation package.kind package.location) :
    ∃ outcome, validatePackageLockGraph (joinLock lock) = some outcome
      ∧ (outcome = none ↔ lock.GraphValid) := by
  unfold validatePackageLockGraph
  have identities : ((joinLock lock).packages.any fun package =>
      package.name == (joinLock lock).rootName
        || !validPackageLocation package.kind package.location) = false
      ↔ ∀ package ∈ lock.packages,
        package.name ≠ lock.rootName ∧ validLocation package.kind package.location = true := by
    simp only [joinLock, joinPackage, any_map, any_eq_false, comp_apply,
      Bool.or_eq_true, beq_iff_eq, Bool.not_eq_true', not_or, Bool.not_eq_false]
    exact forall₂_congr fun package mem => by rw [locations package mem]
  cases identity : ((joinLock lock).packages.any fun package =>
      package.name == (joinLock lock).rootName
        || !validPackageLocation package.kind package.location) with
  | true =>
    refine ⟨_, rfl, iff_of_false (by simp) fun valid => ?_⟩
    rw [identities.mpr valid.identity] at identity
    cases identity
  | false =>
    rw [identities] at identity
    have fresh : (lock.rootName :: lock.packages.map (·.name)).Nodup := by
      refine nodup_cons.mpr ⟨fun mem => ?_, distinct⟩
      obtain ⟨package, present, same⟩ := mem_map.mp mem
      exact (identity package present).1 same
    have named : ∀ name, name ∈ lock.packages.map (·.name) ↔ lock.Names name := by
      intro name
      rw [mem_map]
      rfl
    obtain ⟨outcome, checked, accepts⟩ := checkGraph_arena fresh lock.edges
    rw [edgeOf_eq_depends] at accepts
    rw [lockNodes_joinLock fun package mem => (identity package mem).1]
    refine ⟨outcome, checked, accepts.trans ⟨?_, fun valid => ⟨?_, ?_, valid.acyclic⟩⟩⟩
    · rintro ⟨known, reachable, acyclic⟩
      have parents : ∀ edge ∈ lock.edges, edge.parent = lock.rootName ∨ lock.Names edge.parent := by
        intro edge mem
        rw [← named, ← mem_cons]
        exact (known edge mem).2.1
      have deps : ∀ edge ∈ lock.edges, lock.Names edge.dependency := by
        intro edge mem
        rw [← named]
        -- an edge to the root would close a cycle
        refine (mem_cons.mp (known edge mem).2.2.1).resolve_left fun root => ?_
        have step : lock.Depends edge.parent lock.rootName := ⟨edge.scope, by rw [← root]; exact mem⟩
        exact acyclic _ (.tail' (reachable _ (known edge mem).2.1) step)
      exact ⟨identity, parents, deps, fun edge mem => (known edge mem).2.2.2, unique,
        fun package mem => reachable _ (mem_cons_of_mem _ (mem_map_of_mem mem)),
        acyclic⟩
    · intro edge mem
      refine ⟨fun self => ?_, ?_, ?_, valid.scopes edge mem⟩
      · have step : lock.Depends edge.parent edge.dependency := ⟨edge.scope, mem⟩
        rw [self] at step
        exact valid.acyclic edge.dependency (.single step)
      · rw [mem_cons, named]
        exact valid.parents edge mem
      · exact mem_cons_of_mem _ ((named _).mpr (valid.dependencies edge mem))
    · intro name mem
      rcases mem_cons.mp mem with rfl | present
      · exact .refl
      · obtain ⟨package, locked, rfl⟩ := mem_map.mp present
        exact valid.reachable package locked

end FoundationLang.Selfhost
