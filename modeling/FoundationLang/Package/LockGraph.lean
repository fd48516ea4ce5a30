/-
**What `validateLockGraph` accepts.**

* `GraphValid.sort` — it does not depend on the order of packages and edges.
-/

import FoundationLang.Package.Lock

namespace FoundationLang.Package

open Library Relation Std List

/-! ### Graphs of locks -/

/-- There is an edge, in some scope. -/
def PackageLock.Depends (lock : PackageLock) (parent dependency : String) : Prop :=
  ∃ scope, (⟨parent, dependency, scope⟩ : PackageEdge) ∈ lock.edges

/-- The lock has a package of this name. -/
def PackageLock.Names (lock : PackageLock) (name : String) : Prop :=
  ∃ package ∈ lock.packages, package.name = name

/-- The two ends of an edge. -/
def PackageEdge.ends (edge : PackageEdge) : String × String :=
  (edge.parent, edge.dependency)

/-- **The graph of a lock is one that a resolution may have.** -/
structure PackageLock.GraphValid (lock : PackageLock) : Prop where
  identity : ∀ package ∈ lock.packages,
    package.name ≠ lock.rootName ∧ validLocation package.kind package.location = true
  parents : ∀ edge ∈ lock.edges, edge.parent = lock.rootName ∨ lock.Names edge.parent
  dependencies : ∀ edge ∈ lock.edges, lock.Names edge.dependency
  scopes : ∀ edge ∈ lock.edges, edge.scope = .test → edge.parent = lock.rootName
  unique : (lock.edges.map PackageEdge.ends).Nodup
  reachable : ∀ package ∈ lock.packages, ReflTransGen lock.Depends lock.rootName package.name
  acyclic : Acyclic lock.Depends

section

variable {lock : PackageLock}

theorem mem_names {name : String} : name ∈ lock.names ↔ lock.Names name := by
  simp [PackageLock.names, PackageLock.Names]

theorem mem_successors {parent dependency : String} :
    dependency ∈ lock.successors parent ↔ lock.Depends parent dependency := by
  simp only [PackageLock.successors, mem_map, mem_filter, beq_iff_eq]
  constructor
  · rintro ⟨⟨_, _, scope⟩, ⟨mem, rfl⟩, rfl⟩
    exact ⟨scope, mem⟩
  · rintro ⟨_, mem⟩
    exact ⟨_, ⟨mem, rfl⟩, rfl⟩

theorem successor_eq_depends : Successor lock.successors = lock.Depends := by
  funext parent dep
  exact propext mem_successors

/-! ### Counting edges -/

theorem sum_countP_key {α : Type} (counted : α → Bool) (key : α → String) (xs : List α)
    {keys : List String} (distinct : keys.Nodup) :
    (keys.map fun name => xs.countP fun item => counted item && key item == name).sum
      = xs.countP fun item => counted item && keys.contains (key item) := by
  induction keys with
  | nil => simp
  | cons x rest ih =>
    obtain ⟨fresh, distinct⟩ := nodup_cons.mp distinct
    rw [map_cons, sum_cons, ih distinct]
    clear ih
    induction xs with
    | nil => rfl
    | cons item xs step =>
      simp only [countP_cons] at step ⊢
      have here : (if (counted item && key item == x) = true then 1 else 0)
          + (if (counted item && rest.contains (key item)) = true then 1 else 0)
          = if (counted item && (x :: rest).contains (key item)) = true then 1 else 0 := by
        by_cases same : key item = x
        · subst same
          cases counted item <;> simp [fresh]
        · cases counted item <;> simp [same]
      omega

theorem length_successors (name : String) :
    (lock.successors name).length = lock.edges.countP fun edge => true && edge.parent == name := by
  simp [PackageLock.successors, countP_eq_length_filter]

theorem count_successors (parent name : String) :
    (lock.successors parent).count name
      = lock.edges.countP fun edge => edge.dependency == name && edge.parent == parent := by
  unfold PackageLock.successors
  rw [List.count, countP_map, countP_filter]
  rfl

theorem pushesLeft_le {nodes : List String} (distinct : nodes.Nodup) :
    pushesLeft lock.successors nodes [] ≤ lock.edges.length := by
  unfold pushesLeft sumLeft
  simp only [not_mem_nil, not_false_eq_true, decide_true, filter_true, length_successors]
  rw [sum_countP_key _ _ _ distinct]
  exact countP_le_length

/-- The counts of `validateLockGraph` are the counts of the library. -/
theorem incoming_eq {nodes : List String} (distinct : nodes.Nodup)
    (parents : ∀ edge ∈ lock.edges, edge.parent ∈ nodes) (name : String) :
    lock.incoming name = incomingFrom lock.successors nodes [] name := by
  unfold incomingFrom sumLeft PackageLock.incoming
  simp only [not_mem_nil, not_false_eq_true, decide_true, filter_true, count_successors]
  rw [sum_countP_key _ _ _ distinct]
  refine countP_congr fun edge mem => ?_
  simp [parents edge mem]

/-! ### The loop over the edges -/

theorem checkEdges_iff {unique : List (String × String)} {edges : List PackageEdge} :
    checkEdges lock unique edges = true
      ↔ (∀ edge ∈ edges, (edge.parent = lock.rootName ∨ lock.Names edge.parent)
          ∧ lock.Names edge.dependency ∧ (edge.scope = .test → edge.parent = lock.rootName)
          ∧ edge.ends ∉ unique)
        ∧ (edges.map PackageEdge.ends).Nodup := by
  induction edges generalizing unique with
  | nil => simp [checkEdges]
  | cons edge rest ih =>
    have here : ((edge.parent != lock.rootName && !lock.names.contains edge.parent) ||
        !lock.names.contains edge.dependency ||
        (edge.scope == .test && edge.parent != lock.rootName) ||
        unique.contains (edge.parent, edge.dependency)) = false
        ↔ (edge.parent = lock.rootName ∨ lock.Names edge.parent) ∧ lock.Names edge.dependency
          ∧ (edge.scope = .test → edge.parent = lock.rootName) ∧ edge.ends ∉ unique := by
      simp only [Bool.or_eq_false_iff, Bool.and_eq_false_iff, bne_eq_false_iff_eq,
        Bool.not_eq_false', beq_eq_false_iff_ne, contains_eq_mem, decide_eq_true_eq,
        decide_eq_false_iff_not, mem_names, PackageEdge.ends, and_assoc]
      refine and_congr_right fun _ => and_congr_right fun _ => and_congr_left fun _ => ?_
      tauto
    rw [checkEdges]
    split
    · rename_i rejected
      refine iff_of_false (by simp) fun ran => ?_
      have := here.mpr (ran.1 edge (by simp))
      rw [rejected] at this
      cases this
    · rename_i ran
      rw [Bool.not_eq_true, here] at ran
      rw [ih, map_cons, nodup_cons]
      constructor
      · rintro ⟨others, distinct⟩
        refine ⟨fun y mem => ?_, fun present => ?_, distinct⟩
        · rcases mem_cons.mp mem with rfl | later
          · exact ran
          · obtain ⟨parent, dep, scope, fresh⟩ := others y later
            exact ⟨parent, dep, scope, fun seen => fresh (mem_cons_of_mem _ seen)⟩
        · obtain ⟨y, later, same⟩ := mem_map.mp present
          exact (others y later).2.2.2 (by rw [same]; exact mem_cons_self)
      · rintro ⟨all, fresh, distinct⟩
        refine ⟨fun y mem => ?_, distinct⟩
        obtain ⟨parent, dep, scope, unseen⟩ := all y (by simp [mem])
        refine ⟨parent, dep, scope, fun seen => ?_⟩
        rcases mem_cons.mp seen with same | earlier
        · exact fresh (mem_map.mpr ⟨y, mem, same⟩)
        · exact unseen earlier

/-! ### The two loops over the graph -/

/-- The facts about a lock that the loops rely on: its names are distinct and its edges stay among
them. -/
theorem nodes_of_checked
    (identity : ∀ package ∈ lock.packages, package.name ≠ lock.rootName)
    (edges : ∀ edge ∈ lock.edges, (edge.parent = lock.rootName ∨ lock.Names edge.parent)
      ∧ lock.Names edge.dependency) :
    (lock.rootName :: lock.names).Nodup
      ∧ (∀ edge ∈ lock.edges, edge.parent ∈ lock.rootName :: lock.names)
      ∧ ∀ x y, y ∈ lock.successors x →
        x ∈ lock.rootName :: lock.names ∧ y ∈ lock.rootName :: lock.names := by
  have parents : ∀ edge ∈ lock.edges, edge.parent ∈ lock.rootName :: lock.names := by
    intro edge mem
    rw [mem_cons, mem_names]
    exact (edges edge mem).1
  refine ⟨nodup_cons.mpr ⟨fun mem => ?_, nodup_dedup _⟩, parents, ?_⟩
  · obtain ⟨package, present, same⟩ := mem_names.mp mem
    exact identity package present same
  · intro x y step
    obtain ⟨_, mem⟩ := mem_successors.mp step
    exact ⟨parents _ mem, mem_cons_of_mem _ (mem_names.mpr (edges _ mem).2)⟩

theorem mem_sources (name : String) :
    name ∈ lock.sources.reverse ↔ name ∈ lock.rootName :: lock.names ∧ lock.incoming name = 0 := by
  unfold PackageLock.sources
  rw [mem_reverse, mem_filter, (stdSort_perm _ _).mem_iff, beq_iff_eq]

theorem nodup_sources (distinct : (lock.rootName :: lock.names).Nodup) :
    lock.sources.reverse.Nodup := by
  rw [nodup_reverse]
  exact ((stdSort_perm _ _).nodup_iff.mpr distinct).filter _

/-- **`validateLockGraph` accepts the valid graphs.** -/
theorem validateLockGraph_eq_none : validateLockGraph lock = none ↔ lock.GraphValid := by
  have identities : (lock.packages.any fun package =>
      package.name == lock.rootName || !validLocation package.kind package.location) = false
      ↔ ∀ package ∈ lock.packages,
        package.name ≠ lock.rootName ∧ validLocation package.kind package.location = true := by
    simp [any_eq_false]
  unfold validateLockGraph
  constructor
  · intro ran
    split at ran
    · cases ran
    rename_i identity
    rw [Bool.not_eq_true, identities] at identity
    split at ran
    · cases ran
    rename_i checked
    rw [Bool.not_eq_true', Bool.not_eq_false, checkEdges_iff] at checked
    obtain ⟨edges, unique⟩ := checked
    obtain ⟨distinct, parents, inside⟩ := nodes_of_checked
      (fun package mem => (identity package mem).1)
      fun edge mem => ⟨(edges edge mem).1, (edges edge mem).2.1⟩
    split at ran
    · cases ran
    rename_i reached
    split at ran
    · cases ran
    rename_i removed
    rw [ne_eq, not_not] at reached removed
    rw [← length_cons (a := lock.rootName)] at reached removed
    have pushes : pushesLeft lock.successors (lock.rootName :: lock.names) [] ≤ lock.edges.length :=
      pushesLeft_le distinct
    have reachable := (length_reachFrom_iff distinct (fun x _ y step =>
      (inside x y step).2) mem_cons_self (by omega)).mp reached
    have acyclic := (length_removeSources_iff distinct inside (incoming_eq distinct parents)
      (nodup_sources distinct) mem_sources).mp removed
    rw [successor_eq_depends] at reachable acyclic
    exact ⟨identity, fun edge mem => (edges edge mem).1,
      fun edge mem => (edges edge mem).2.1, fun edge mem => (edges edge mem).2.2.1,
      unique, fun package mem => reachable _ (mem_cons_of_mem _ (mem_names.mpr
        ⟨package, mem, rfl⟩)), acyclic⟩
  · intro valid
    have checked : checkEdges lock [] lock.edges = true := checkEdges_iff.mpr
      ⟨fun edge mem => ⟨valid.parents edge mem, valid.dependencies edge mem,
        valid.scopes edge mem, by simp⟩, valid.unique⟩
    obtain ⟨distinct, parents, inside⟩ := nodes_of_checked
      (fun package mem => (valid.identity package mem).1)
      fun edge mem => ⟨valid.parents edge mem, valid.dependencies edge mem⟩
    have pushes : pushesLeft lock.successors (lock.rootName :: lock.names) [] ≤ lock.edges.length :=
      pushesLeft_le distinct
    have reached : (reachFrom lock.successors (lock.edges.length + 1) [lock.rootName] []).length
        = (lock.rootName :: lock.names).length := by
      refine (length_reachFrom_iff distinct (fun x _ y step =>
        (inside x y step).2) mem_cons_self (by omega)).mpr fun name mem => ?_
      rw [successor_eq_depends]
      rcases mem_cons.mp mem with rfl | named
      · exact .refl
      · obtain ⟨package, present, rfl⟩ := mem_names.mp named
        exact valid.reachable package present
    have removed : (removeSources lock.successors (lock.names.length + 1) lock.incoming
        lock.sources.reverse []).length = (lock.rootName :: lock.names).length := by
      refine (length_removeSources_iff distinct inside (incoming_eq distinct parents)
        (nodup_sources distinct) mem_sources).mpr ?_
      rw [successor_eq_depends]
      exact valid.acyclic
    rw [length_cons] at reached removed
    rw [if_neg (by rw [identities.mpr valid.identity]; simp), if_neg (by simp [checked]),
      if_neg (by simpa using reached), if_neg (by simpa using removed)]

end

/-! ### Order -/

/-- **A valid graph stays valid in any order of packages and edges.** -/
theorem PackageLock.GraphValid.of_perm {lock y : PackageLock} (valid : lock.GraphValid)
    (root : y.rootName = lock.rootName) (packages : y.packages.Perm lock.packages)
    (edges : y.edges.Perm lock.edges) : y.GraphValid := by
  have names (name : String) : y.Names name ↔ lock.Names name :=
    exists_congr fun _ => and_congr_left fun _ => packages.mem_iff
  have depends : y.Depends = lock.Depends := by
    funext parent dep
    exact propext (exists_congr fun _ => edges.mem_iff)
  refine ⟨?_, ?_, ?_, ?_, ?_, ?_, ?_⟩
  · intro package mem
    rw [root]
    exact valid.identity package (packages.mem_iff.mp mem)
  · intro edge mem
    rw [root, names]
    exact valid.parents edge (edges.mem_iff.mp mem)
  · intro edge mem
    rw [names]
    exact valid.dependencies edge (edges.mem_iff.mp mem)
  · intro edge mem
    rw [root]
    exact valid.scopes edge (edges.mem_iff.mp mem)
  · exact (edges.map _).nodup_iff.mpr valid.unique
  · intro package mem
    rw [root, depends]
    exact valid.reachable package (packages.mem_iff.mp mem)
  · rw [depends]
    exact valid.acyclic

end FoundationLang.Package
