/-
**`dependencyCycle` decides whether the edges form a cycle.**

`dependencyCycle_eq_none_iff`: the depth-first search over the edge set returns no cycle exactly
when the relation "is a parent of" is acyclic.

The search carries `SearchInvariant`: the active nodes are those on the stack, and from every done
node all chains of dependencies end. `visit_spec` says what one call does to it. A call that
returns marks finishes its node; a call that returns a cycle has met its own stack, and the stack is
a chain of edges. The fuel is the number of nodes, which bounds the number of unseen ones at every
depth (`unseenCount`).
-/

import FoundationLang.Library.Acyclic
import FoundationLang.Package.Order

namespace FoundationLang.Package

open Std Relation Library List

/-! ### The graph of the edge set -/

/-- The successors of a node in the graph of the search. -/
def successors (graph : TreeMap String (List String)) (name : String) : List String :=
  (graph[name]?).getD []

/-- One edge entered into the graph. -/
def addEdge (graph : TreeMap String (List String)) (edge : PackageEdge) :
    TreeMap String (List String) :=
  (graph.alter edge.parent fun known => some (known.getD [] ++ [edge.dependency])).alter
    edge.dependency fun known => some (known.getD [])

theorem successors_addEdge (graph : TreeMap String (List String)) (edge : PackageEdge)
    (name : String) :
    successors (addEdge graph edge) name
      = successors graph name ++ (if edge.parent = name then [edge.dependency] else []) := by
  unfold successors addEdge
  rw [TreeMap.getElem?_alter, TreeMap.getElem?_alter]
  by_cases child : edge.dependency = name <;> by_cases parent : edge.parent = name <;>
    simp [child, parent, TreeMap.getElem?_alter]

theorem mem_addEdge (graph : TreeMap String (List String)) (edge : PackageEdge) (name : String) :
    name ∈ addEdge graph edge ↔ name ∈ graph ∨ name = edge.parent ∨ name = edge.dependency := by
  unfold addEdge
  simp only [TreeMap.mem_alter]
  by_cases child : edge.dependency = name <;> by_cases parent : edge.parent = name <;>
    simp [child, parent, eq_comm (a := name)]

/-- The relation of the edge set: some edge leads from the parent to the dependency. -/
def Requires (edges : TreeSet PackageEdge compareEdge) (parent dependency : String) : Prop :=
  ∃ scope, (⟨parent, dependency, scope⟩ : PackageEdge) ∈ edges

section

variable (edges : List PackageEdge) (graph : TreeMap String (List String))

theorem mem_successors_foldl_addEdge (parent dep : String) :
    dep ∈ successors (edges.foldl addEdge graph) parent
      ↔ dep ∈ successors graph parent
        ∨ ∃ scope, (⟨parent, dep, scope⟩ : PackageEdge) ∈ edges := by
  induction edges generalizing graph with
  | nil => simp
  | cons edge edges ih =>
    rw [foldl_cons, ih, successors_addEdge, mem_append, or_assoc]
    refine or_congr_right ?_
    rcases edge with ⟨edgeParent, _, edgeScope⟩
    by_cases same : edgeParent = parent
    · subst same
      simp only [if_pos, mem_cons, not_mem_nil, or_false, PackageEdge.mk.injEq, true_and]
      constructor
      · rintro (first | ⟨scope, later⟩)
        · exact ⟨edgeScope, .inl ⟨first, rfl⟩⟩
        · exact ⟨scope, .inr later⟩
      · rintro ⟨scope, first | later⟩
        · exact .inl first.1
        · exact .inr ⟨scope, later⟩
    · simp [same, Ne.symm same]

theorem mem_foldl_addEdge_of_mem
    {name : String} (mem : name ∈ graph) : name ∈ edges.foldl addEdge graph := by
  induction edges generalizing graph with
  | nil => exact mem
  | cons edge edges ih =>
    exact ih _ ((mem_addEdge graph edge name).mpr (.inl mem))

theorem dependency_mem_foldl_addEdge {edge : PackageEdge} (mem : edge ∈ edges) :
    edge.dependency ∈ edges.foldl addEdge graph := by
  induction edges generalizing graph with
  | nil => cases mem
  | cons x edges ih =>
    rcases mem_cons.mp mem with same | later
    · subst same
      exact mem_foldl_addEdge_of_mem edges _ ((mem_addEdge graph edge _).mpr (.inr (.inr rfl)))
    · exact ih _ later

end

theorem mem_successors_edgeGraph (edges : TreeSet PackageEdge compareEdge)
    (parent dependency : String) :
    dependency ∈ successors (edgeGraph edges) parent ↔ Requires edges parent dependency := by
  have unfolded : edgeGraph edges = edges.toList.foldl addEdge ∅ := rfl
  rw [unfolded, mem_successors_foldl_addEdge]
  simp [Requires, successors, TreeSet.mem_toList]

/-- Every successor is a node of the graph. -/
def Closed (graph : TreeMap String (List String)) : Prop :=
  ∀ parent, ∀ dependency ∈ successors graph parent, dependency ∈ graph

theorem closed_edgeGraph (edges : TreeSet PackageEdge compareEdge) : Closed (edgeGraph edges) := by
  intro parent dep mem
  obtain ⟨_, edge⟩ := (mem_successors_edgeGraph edges parent dep).mp mem
  exact dependency_mem_foldl_addEdge edges.toList ∅ (TreeSet.mem_toList.mpr edge)

/-! ### The marks of the search -/

@[simp] theorem markOf_insert (marks : TreeMap String Mark) (name other : String) (mark : Mark) :
    markOf (marks.insert name mark) other = if name = other then mark else markOf marks other := by
  unfold markOf
  rw [TreeMap.getElem?_insert]
  by_cases same : name = other <;> simp [same]

/-- **The invariant of the search.** The active nodes are those of the stack, and from a done node
every chain of dependencies ends. -/
structure SearchInvariant (graph : TreeMap String (List String)) (stack : List String)
    (marks : TreeMap String Mark) : Prop where
  activeNodes : ∀ name, markOf marks name = .active ↔ name ∈ stack
  doneNodes : ∀ name, markOf marks name = .done →
    Ends (fun parent dependency => dependency ∈ successors graph parent) name

/-- The marks only move forward. -/
structure Later (earlier later : TreeMap String Mark) : Prop where
  done : ∀ name, markOf earlier name = .done → markOf later name = .done
  unseen : ∀ name, markOf later name = .unseen → markOf earlier name = .unseen

theorem Later.refl (marks : TreeMap String Mark) : Later marks marks :=
  ⟨fun _ done => done, fun _ unseen => unseen⟩

theorem Later.trans {x y third : TreeMap String Mark} (s : Later x y)
    (t : Later y third) : Later x third :=
  ⟨fun name done => t.done name (s.done name done),
    fun name unseen => s.unseen name (t.unseen name unseen)⟩

/-- The nodes that the search has not reached. -/
def unseenCount (graph : TreeMap String (List String)) (marks : TreeMap String Mark) : Nat :=
  graph.keys.countP fun name => markOf marks name = .unseen

theorem Later.unseenCount_le {earlier later : TreeMap String Mark} (forward : Later earlier later)
    (graph : TreeMap String (List String)) : unseenCount graph later ≤ unseenCount graph earlier := by
  refine countP_mono_left fun name _ unseen => ?_
  simp only [decide_eq_true_eq] at unseen ⊢
  exact forward.unseen name unseen

theorem countP_unseen_insert_active (names : List String) (marks : TreeMap String Mark)
    (name : String) :
    names.countP (fun y => markOf (marks.insert name .active) y = .unseen)
      ≤ names.countP fun y => markOf marks y = .unseen := by
  refine countP_mono_left fun y _ fresh => ?_
  by_cases same : name = y <;> simp_all

theorem unseenCount_insert_active {graph : TreeMap String (List String)}
    {marks : TreeMap String Mark} {name : String} (node : name ∈ graph)
    (unseen : markOf marks name = .unseen) :
    unseenCount graph (marks.insert name .active) < unseenCount graph marks := by
  obtain ⟨before, t, keys⟩ := append_of_mem (TreeMap.mem_keys.mpr node)
  have first := countP_unseen_insert_active before marks name
  have second := countP_unseen_insert_active t marks name
  have gone : markOf (marks.insert name .active) name ≠ .unseen := by simp
  unfold unseenCount
  rw [keys, countP_append, countP_append,
    countP_cons_of_neg (by simpa only [decide_eq_true_eq] using gone),
    countP_cons_of_pos (by simpa only [decide_eq_true_eq] using unseen)]
  omega

/-! ### One call of `visit` -/

/-- What a call with a stack may return: marks that keep the invariant and have moved forward, or a
cycle that the edges really form. -/
def SearchOutcome (graph : TreeMap String (List String)) (stack : List String)
    (marks : TreeMap String Mark) (finished : TreeMap String Mark → Prop) :
    Except (List String) (TreeMap String Mark) → Prop
  | .ok result => SearchInvariant graph stack result ∧ Later marks result ∧ finished result
  | .error _ => ¬Acyclic fun parent dependency => dependency ∈ successors graph parent

section Visit

variable {graph : TreeMap String (List String)} {stack : List String}
  {marks m : TreeMap String Mark} {finished t : TreeMap String Mark → Prop}

theorem SearchOutcome.from_earlier {result : Except (List String) (TreeMap String Mark)}
    (forward : Later marks m) (outcome : SearchOutcome graph stack m finished result) :
    SearchOutcome graph stack marks finished result := by
  cases result with
  | error => exact outcome
  | ok => exact ⟨outcome.1, forward.trans outcome.2.1, outcome.2.2⟩

/-- Two calls in a row: a cycle found by the first one is the result. -/
theorem SearchOutcome.bind {r : Except (List String) (TreeMap String Mark)}
    {next : TreeMap String Mark → Except (List String) (TreeMap String Mark)}
    (outcome : SearchOutcome graph stack marks finished r)
    (continued : ∀ m, SearchInvariant graph stack m → Later marks m →
      finished m → SearchOutcome graph stack marks t (next m)) :
    SearchOutcome graph stack marks t (r >>= next) := by
  cases r with
  | error => exact outcome
  | ok m => exact continued m outcome.1 outcome.2.1 outcome.2.2

theorem visitDependencies_spec {fuel : Nat} {name : String}
    (recursive : ∀ dep marks, dep ∈ successors graph name →
      SearchInvariant graph (stack ++ [name]) marks → markOf marks dep = .unseen →
      unseenCount graph marks ≤ fuel →
      SearchOutcome graph (stack ++ [name]) marks (fun result => markOf result dep = .done)
        (visit graph fuel (stack ++ [name]) dep marks))
    (chain : List.IsChain (fun parent dep => dep ∈ successors graph parent)
      (stack ++ [name]))
    (deps : List String) (included : deps ⊆ successors graph name)
    (marks : TreeMap String Mark) (inv : SearchInvariant graph (stack ++ [name]) marks)
    (enough : unseenCount graph marks ≤ fuel) :
    SearchOutcome graph (stack ++ [name]) marks
      (fun result => ∀ dep ∈ deps, markOf result dep = .done)
      (visitDependencies (visit graph fuel (stack ++ [name])) (stack ++ [name]) deps
        marks) := by
  induction deps generalizing marks with
  | nil => exact ⟨inv, Later.refl marks, by simp⟩
  | cons dep rest ih =>
    have successor : dep ∈ successors graph name := included (by simp)
    -- what is left once the dependency has been reached
    have continued : ∀ m, SearchInvariant graph (stack ++ [name]) m →
        Later marks m → markOf m dep ≠ .unseen →
        SearchOutcome graph (stack ++ [name]) marks
          (fun result => ∀ y ∈ dep :: rest, markOf result y = .done)
          (if markOf m dep = .active then
            .error ((stack ++ [name]).dropWhile (· != dep) ++ [dep])
          else visitDependencies (visit graph fuel (stack ++ [name])) (stack ++ [name]) rest
            m) := by
      intro m kept forward seen
      split
      case isTrue active =>
        have onStack := (kept.activeNodes dep).mp active
        exact fun acyclic => acyclic _ (transGen_of_isChain_mem chain onStack successor)
      case isFalse inactive =>
        have finished : markOf m dep = .done := by
          cases mark : markOf m dep <;> simp_all
        have outcome := ih (fun y mem => included (mem_cons_of_mem _ mem))
          m kept ((forward.unseenCount_le graph).trans enough)
        refine SearchOutcome.from_earlier forward ?_
        revert outcome
        cases visitDependencies (visit graph fuel (stack ++ [name])) (stack ++ [name]) rest
            m with
        | error cycle => exact fun cyclic => cyclic
        | ok result =>
          rintro ⟨final, t, rests⟩
          refine ⟨final, t, fun y mem => ?_⟩
          rcases mem_cons.mp mem with same | later
          · exact same ▸ t.done dep finished
          · exact rests y later
    simp only [visitDependencies]
    split
    case isTrue unseen =>
      refine (recursive dep marks successor inv unseen enough).bind ?_
      intro m kept forward finished
      exact continued m kept forward (by simp [finished])
    case isFalse seen => exact continued marks inv (Later.refl marks) seen

/-- **`visit` finishes its node or finds a cycle.** -/
theorem visit_spec (closed : Closed graph) (fuel : Nat) (stack : List String) (name : String)
    (marks : TreeMap String Mark)
    (chain : List.IsChain (fun parent dep => dep ∈ successors graph parent)
      (stack ++ [name]))
    (inv : SearchInvariant graph stack marks) (node : name ∈ graph)
    (unseen : markOf marks name = .unseen) (enough : unseenCount graph marks ≤ fuel) :
    SearchOutcome graph stack marks (fun result => markOf result name = .done)
      (visit graph fuel stack name marks) := by
  induction fuel generalizing stack name marks with
  | zero =>
    have fewer := unseenCount_insert_active node unseen
    omega
  | succ fuel ih =>
    have entered : SearchInvariant graph (stack ++ [name]) (marks.insert name .active) := by
      refine ⟨fun y => ?_, fun y done => ?_⟩
      · by_cases same : name = y
        · simp [same]
        · simp [same, Ne.symm same, inv.activeNodes]
      · by_cases same : name = y
        · simp [same] at done
        · rw [markOf_insert, if_neg same] at done
          exact inv.doneNodes y done
    have fewer := unseenCount_insert_active node unseen
    have loop := visitDependencies_spec
      (fun dep marks successor inv unseen enough =>
        ih (stack ++ [name]) dep marks
          (isChain_append.mpr ⟨chain, by simp, by simpa using successor⟩) inv
          (closed name dep successor) unseen enough)
      chain (successors graph name) (fun _ mem => mem) (marks.insert name .active) entered
      (by omega)
    show SearchOutcome graph stack marks _ (do
      let marks ← visitDependencies (visit graph fuel (stack ++ [name])) (stack ++ [name])
        (successors graph name) (marks.insert name .active)
      .ok (marks.insert name .done))
    revert loop
    cases visitDependencies (visit graph fuel (stack ++ [name])) (stack ++ [name])
        (successors graph name) (marks.insert name .active) with
    | error cycle => exact fun cyclic => cyclic
    | ok result =>
      rintro ⟨final, forward, finished⟩
      have absent : name ∉ stack := by
        intro mem
        rw [← inv.activeNodes, unseen] at mem
        cases mem
      refine ⟨⟨fun y => ?_, fun y done => ?_⟩, ⟨fun y done => ?_, fun y fresh => ?_⟩,
        by simp⟩
      · by_cases same : name = y
        · subst same
          simp [absent]
        · rw [markOf_insert, if_neg same, final.activeNodes]
          simp [Ne.symm same]
      · by_cases same : name = y
        · subst same
          exact ends_of_successors fun next mem => final.doneNodes next (finished next mem)
        · rw [markOf_insert, if_neg same] at done
          exact final.doneNodes y done
      · by_cases same : name = y
        · simp [same]
        · rw [markOf_insert, if_neg same]
          exact forward.done y (by rw [markOf_insert, if_neg same]; exact done)
      · by_cases same : name = y
        · subst same
          exact unseen
        · rw [markOf_insert, if_neg same] at fresh
          have earlier := forward.unseen y fresh
          rwa [markOf_insert, if_neg same] at earlier

/-- The outer loop finishes all its nodes or finds a cycle. -/
theorem visitAll_spec (closed : Closed graph) (names : List String)
    (nodes : ∀ name ∈ names, name ∈ graph) (marks : TreeMap String Mark)
    (inv : SearchInvariant graph [] marks) :
    SearchOutcome graph [] marks (fun result => ∀ name ∈ names, markOf result name = .done)
      (visitAll graph names marks) := by
  induction names generalizing marks with
  | nil => exact ⟨inv, Later.refl marks, by simp⟩
  | cons name rest ih =>
    have enough : unseenCount graph marks ≤ graph.size := by
      rw [← TreeMap.length_keys]
      exact countP_le_length
    have continued : ∀ m, SearchInvariant graph [] m → Later marks m →
        markOf m name = .done →
        SearchOutcome graph [] marks
          (fun result => ∀ y ∈ name :: rest, markOf result y = .done)
          (visitAll graph rest m) := by
      intro m kept forward finished
      have outcome := ih (fun y mem => nodes y (mem_cons_of_mem _ mem))
        m kept
      refine SearchOutcome.from_earlier forward ?_
      revert outcome
      cases visitAll graph rest m with
      | error => exact fun cyclic => cyclic
      | ok =>
        rintro ⟨final, t, rests⟩
        refine ⟨final, t, fun y mem => ?_⟩
        rcases mem_cons.mp mem with same | later
        · exact same ▸ t.done name finished
        · exact rests y later
    simp only [visitAll]
    split
    case isTrue unseen =>
      exact (visit_spec closed graph.size [] name marks (by simp) inv (nodes name (by simp))
        unseen enough).bind continued
    case isFalse seen =>
      have inactive : markOf marks name ≠ .active := by simp [inv.activeNodes]
      refine continued marks inv (Later.refl marks) ?_
      cases mark : markOf marks name <;> simp_all

end Visit

/-! ### The decision -/

/-- **`dependencyCycle` returns no cycle exactly when the edges form none.** -/
theorem dependencyCycle_eq_none_iff (edges : TreeSet PackageEdge compareEdge) :
    dependencyCycle edges = none ↔ Acyclic (Requires edges) := by
  have relations : (fun parent dep => dep ∈ successors (edgeGraph edges) parent)
      = Requires edges := by
    funext parent dep
    exact propext (mem_successors_edgeGraph edges parent dep)
  have start : SearchInvariant (edgeGraph edges) [] ∅ :=
    ⟨fun name => by simp [markOf], fun name done => by simp [markOf] at done⟩
  have outcome := visitAll_spec (closed_edgeGraph edges) (edgeGraph edges).keys
    (fun name mem => TreeMap.mem_keys.mp mem) ∅ start
  unfold dependencyCycle
  revert outcome
  cases visitAll (edgeGraph edges) (edgeGraph edges).keys ∅ with
  | error =>
    intro cyclic
    rw [SearchOutcome, relations] at cyclic
    simp [cyclic]
  | ok =>
    rintro ⟨final, _, finished⟩
    refine ⟨fun _ => ?_, fun _ => rfl⟩
    rw [← relations]
    refine acyclic_of_ends fun name => ?_
    by_cases node : name ∈ edgeGraph edges
    · exact final.doneNodes name (finished name (TreeMap.mem_keys.mpr node))
    · -- a name outside the graph has no successors
      refine ends_of_successors fun next mem => ?_
      rw [successors, TreeMap.getElem?_eq_none node] at mem
      cases mem

end FoundationLang.Package
