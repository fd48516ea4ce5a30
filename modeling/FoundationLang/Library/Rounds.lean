/-
**Rounds over a finite graph.**

Two loops without a worklist, over a graph given by a list of edges. Each goes over everything again
as long as the last round changed something.

* `markRounds` — marks the end of every edge whose start is marked. What it marks is what the start
  reaches (`markRounds_spec`).
* `sweepRounds` — takes a node without incoming edges away, and its edges with it. It counts every
  node exactly when the graph is acyclic (`sweepRounds_iff`).

A round that changes something uses up a node, so with one round more than there are nodes neither
loop runs out of fuel.
-/

import FoundationLang.Library.Acyclic
import Mathlib.Data.Set.Finite.List

namespace FoundationLang.Library

open Relation List Function

variable {α : Type} [DecidableEq α] {node : α} {nodes : List α}

/-- The edges as a relation. -/
def EdgeOf (edges : List (α × α)) (first second : α) : Prop :=
  (first, second) ∈ edges

theorem countP_update {marked : α → Bool} (mem : node ∈ nodes)
    (fresh : marked node = false) :
    nodes.countP (fun other => !update marked node true other)
      < nodes.countP fun other => !marked other := by
  have fewer : (nodes.erase node).countP (fun other => !update marked node true other)
      ≤ (nodes.erase node).countP fun other => !marked other := by
    refine countP_mono_left fun other _ left => ?_
    by_cases same : other = node
    · simp [same] at left
    · simpa [same] using left
  rw [(perm_cons_erase mem).countP_eq, (perm_cons_erase mem).countP_eq, countP_cons, countP_cons]
  simpa [fresh] using Nat.lt_succ_of_le fewer

/-! ### Marking -/

section Mark

variable (edges : List (α × α))

/-- One edge: its end is marked when its start is. -/
def markEdge (state : (α → Bool) × Bool) (edge : α × α) : (α → Bool) × Bool :=
  if state.1 edge.1 && !state.1 edge.2 then (update state.1 edge.2 true, true) else state

/-- One round over the edges, and whether it marked a node. -/
def markRound (marked : α → Bool) : (α → Bool) × Bool :=
  edges.foldl markEdge (marked, false)

/-- Rounds until one marks nothing; `none` when the fuel runs out. -/
def markRounds : Nat → (α → Bool) → Option (α → Bool)
  | 0, _ => none
  | fuel + 1, marked =>
    if (markRound edges marked).2 then markRounds fuel (markRound edges marked).1
    else some (markRound edges marked).1

variable {edges}

theorem foldl_markEdge_sound (reached : α → Prop)
    (closed : ∀ x y, (x, y) ∈ edges → reached x → reached y)
    (state : (α → Bool) × Bool) (sound : ∀ node, state.1 node = true → reached node) :
    (∀ node, state.1 node = true → (edges.foldl markEdge state).1 node = true)
      ∧ ∀ node, (edges.foldl markEdge state).1 node = true → reached node := by
  induction edges generalizing state with
  | nil => exact ⟨fun _ => id, sound⟩
  | cons edge rest ih =>
    rw [foldl_cons]
    have grows : ∀ node, state.1 node = true → (markEdge state edge).1 node = true := by
      intro node marked
      unfold markEdge
      split
      · by_cases same : node = edge.2 <;> simp [same, marked]
      · exact marked
    have kept : ∀ node, (markEdge state edge).1 node = true → reached node := by
      intro node marked
      unfold markEdge at marked
      split at marked
      · rename_i step
        rw [Bool.and_eq_true] at step
        by_cases same : node = edge.2
        · rw [same]
          exact closed edge.1 edge.2 mem_cons_self (sound _ step.1)
        · exact sound node (by simpa [same] using marked)
      · exact sound node marked
    obtain ⟨onward, bounded⟩ := ih
      (fun x y mem => closed x y (mem_cons_of_mem _ mem)) _ kept
    exact ⟨fun node marked => onward node (grows node marked), bounded⟩

theorem foldl_markEdge_changed (inside : ∀ edge ∈ edges, edge.2 ∈ nodes)
    (state : (α → Bool) × Bool) :
    ((edges.foldl markEdge state).2 = false → edges.foldl markEdge state = state
        ∧ ∀ edge ∈ edges, state.1 edge.1 = true → state.1 edge.2 = true)
      ∧ nodes.countP (fun node => !(edges.foldl markEdge state).1 node)
        ≤ nodes.countP (fun node => !state.1 node)
      ∧ (state.2 = false → (edges.foldl markEdge state).2 = true →
        nodes.countP (fun node => !(edges.foldl markEdge state).1 node)
          < nodes.countP fun node => !state.1 node) := by
  induction edges generalizing state with
  | nil => exact ⟨fun _ => ⟨rfl, by simp⟩, le_refl _, fun same changed => by simp_all⟩
  | cons edge rest ih =>
    rw [foldl_cons]
    obtain ⟨still, fewer, less⟩ := ih
      (fun y mem => inside y (mem_cons_of_mem _ mem)) (markEdge state edge)
    by_cases step : (state.1 edge.1 && !state.1 edge.2) = true
    · have here : markEdge state edge = (update state.1 edge.2 true, true) := if_pos step
      rw [Bool.and_eq_true, Bool.not_eq_true'] at step
      have used : nodes.countP (fun node => !(markEdge state edge).1 node)
          < nodes.countP fun node => !state.1 node := by
        rw [here]
        exact countP_update (inside edge mem_cons_self) step.2
      refine ⟨fun unchanged => ?_, by omega, fun _ _ => by omega⟩
      obtain ⟨same, _⟩ := still unchanged
      rw [same, here] at unchanged
      cases unchanged
    · have here : markEdge state edge = state := if_neg step
      rw [here] at still fewer less ⊢
      refine ⟨fun unchanged => ?_, fewer, less⟩
      obtain ⟨same, closed⟩ := still unchanged
      refine ⟨same, fun y mem marked => ?_⟩
      rcases mem_cons.mp mem with rfl | later
      · simpa [marked] using step
      · exact closed y later marked

/-- **The rounds mark exactly what the marked nodes reach.** -/
theorem markRounds_spec (inside : ∀ edge ∈ edges, edge.2 ∈ nodes) {fuel : Nat}
    {marked : α → Bool} (enough : nodes.countP (fun node => !marked node) < fuel) :
    ∃ result, markRounds edges fuel marked = some result ∧ ∀ node, result node = true
      ↔ ∃ start, marked start = true ∧ ReflTransGen (EdgeOf edges) start node := by
  induction fuel generalizing marked with
  | zero => omega
  | succ fuel ih =>
    obtain ⟨still, _, less⟩ := foldl_markEdge_changed inside (marked, false)
    -- what is marked before the round is reached from it, and a round follows edges
    obtain ⟨grows, sound⟩ := foldl_markEdge_sound
      (fun node => ∃ start, marked start = true ∧ ReflTransGen (EdgeOf edges) start node)
      (fun x y edge ⟨start, given, path⟩ => ⟨start, given, path.tail edge⟩)
      (marked, false) fun node given => ⟨node, given, .refl⟩
    rw [markRounds]
    cases changed : (markRound edges marked).2 with
    | true =>
      have fewer := less rfl changed
      obtain ⟨result, done, exact⟩ := @ih (markRound edges marked).1
        (Nat.lt_of_lt_of_le fewer (Nat.le_of_lt_succ enough))
      refine ⟨result, by simpa using done, fun node => (exact node).trans ⟨?_, ?_⟩⟩
      · rintro ⟨m, reached, path⟩
        obtain ⟨start, given, x⟩ := sound m reached
        exact ⟨start, given, x.trans path⟩
      · rintro ⟨start, given, path⟩
        exact ⟨start, grows start given, path⟩
    | false =>
      obtain ⟨same, closed⟩ := still changed
      have final : (markRound edges marked).1 = marked := congrArg Prod.fst same
      refine ⟨(markRound edges marked).1, by simp, fun node => ?_⟩
      rw [final]
      refine ⟨fun given => ⟨node, given, .refl⟩, ?_⟩
      rintro ⟨_, given, path⟩
      induction path with
      | refl => exact given
      | tail _ edge reached => exact closed _ edge reached

end Mark

/-! ### Sweeping -/

section Sweep

variable (edges : List (α × α))
variable {nodes : List α} {removed : α → Bool}

/-- One edge of a node that goes: the count of its end. -/
def dropEdge (node : α) (incoming : α → Nat) (edge : α × α) : α → Nat :=
  if edge.1 = node then update incoming edge.2 (incoming edge.2 - 1) else incoming

/-- The variables of the loop. -/
structure Sweep (α : Type) where
  incoming : α → Nat
  removed : α → Bool
  visited : Nat
  changed : Bool

variable {state : Sweep α}

/-- One node: it goes when nothing leads to it any more. -/
def sweepNode (state : Sweep α) (node : α) : Sweep α :=
  if !state.removed node && state.incoming node == 0 then
    { incoming := edges.foldl (dropEdge node) state.incoming
      removed := update state.removed node true
      visited := state.visited + 1
      changed := true }
  else state

/-- Rounds over the nodes until one takes nothing away: the number of nodes that went, `none` when
the fuel runs out. -/
def sweepRounds (nodes : List α) : Nat → Sweep α → Option Nat
  | 0, _ => none
  | fuel + 1, state =>
    let state := nodes.foldl (sweepNode edges) { state with changed := false }
    if state.changed then sweepRounds nodes fuel state else some state.visited

/-- The edges into a node from the nodes that are left. -/
def leftInto (removed : α → Bool) (node : α) : Nat :=
  edges.countP fun edge => edge.2 = node && !removed edge.1

/-- **The state of the loop.** The counts are those of the nodes left, and no chain of edges comes
back to a node that went. -/
structure SweepInvariant (nodes : List α) (state : Sweep α) : Prop where
  counts : ∀ node, state.incoming node = leftInto edges state.removed node
  visited : state.visited = nodes.countP state.removed
  ends : ∀ node, state.removed node = true → Ends (fun next before => EdgeOf edges before next) node

variable {edges}

theorem foldl_dropEdge (node : α) (incoming : α → Nat) (y : α) :
    edges.foldl (dropEdge node) incoming y
      = incoming y - edges.countP fun edge => edge.2 = y && edge.1 = node := by
  induction edges generalizing incoming with
  | nil => simp
  | cons edge rest ih =>
    rw [foldl_cons, ih, countP_cons]
    unfold dropEdge
    by_cases start : edge.1 = node
    · by_cases here : y = edge.2
      · subst here
        simp [start]
        omega
      · simp [start, here, Ne.symm here]
    · simp [start]

theorem leftInto_update (fresh : removed node = false) (y : α) :
    leftInto edges (update removed node true) y
      = leftInto edges removed y
        - edges.countP fun edge => edge.2 = y && edge.1 = node := by
  unfold leftInto
  induction edges with
  | nil => rfl
  | cons edge rest ih =>
    have within : rest.countP (fun edge => edge.2 = y && edge.1 = node)
        ≤ rest.countP fun edge => edge.2 = y && !removed edge.1 := by
      refine countP_mono_left fun edge _ both => ?_
      simp only [Bool.and_eq_true, decide_eq_true_eq] at both
      simp [both.1, both.2, fresh]
    simp only [countP_cons, ih]
    by_cases start : edge.1 = node
    · by_cases here : edge.2 = y
      · simp [start, here, fresh]
      · simp [here]
    · by_cases here : edge.2 = y
      · simp only [here, start, update_of_ne start]
        cases removed edge.1 <;> simp; omega
      · simp [here]

theorem leftInto_eq_zero :
    leftInto edges removed node = 0 ↔ ∀ start, EdgeOf edges start node → removed start = true := by
  unfold leftInto EdgeOf
  rw [countP_eq_zero]
  constructor
  · intro none start edge
    have := none _ edge
    simpa using this
  · rintro all ⟨start, target⟩ edge
    by_cases here : target = node
    · subst here
      simp [all start edge]
    · simp [here]

theorem countP_removed (distinct : nodes.Nodup) (mem : node ∈ nodes)
    (fresh : removed node = false) :
    nodes.countP (update removed node true) = nodes.countP removed + 1 := by
  have others : (nodes.erase node).countP (update removed node true)
      = (nodes.erase node).countP removed := by
    refine countP_congr fun y present => ?_
    rw [update_of_ne]
    rintro rfl
    exact distinct.not_mem_erase present
  rw [(perm_cons_erase mem).countP_eq, (perm_cons_erase mem).countP_eq removed, countP_cons,
    countP_cons, others]
  simp [fresh]

theorem SweepInvariant.step (distinct : nodes.Nodup) (inv : SweepInvariant edges nodes state)
    (mem : node ∈ nodes) :
    SweepInvariant edges nodes (sweepNode edges state node) := by
  unfold sweepNode
  split
  · rename_i free
    rw [Bool.and_eq_true, Bool.not_eq_true', beq_iff_eq] at free
    obtain ⟨fresh, none⟩ := free
    rw [inv.counts, leftInto_eq_zero] at none
    refine ⟨fun y => ?_, ?_, fun y gone => ?_⟩
    · show edges.foldl (dropEdge node) state.incoming y = _
      rw [foldl_dropEdge, inv.counts, leftInto_update fresh]
    · show state.visited + 1 = _
      rw [countP_removed distinct mem fresh, inv.visited]
    · by_cases same : y = node
      · rw [same]
        exact ends_of_successors fun start edge => inv.ends start (none start edge)
      · exact inv.ends y (by simpa [same] using gone)
  · exact inv

/-- **One round**, over some of the nodes: it keeps the invariant, it leaves nodes without incoming
edges only when it changes something, and then it counts more nodes. -/
theorem sweep_round (distinct : nodes.Nodup) (round : List α)
    (within : ∀ node ∈ round, node ∈ nodes) (inv : SweepInvariant edges nodes state) :
    SweepInvariant edges nodes (round.foldl (sweepNode edges) state)
      ∧ state.visited ≤ (round.foldl (sweepNode edges) state).visited
      ∧ (state.changed = false → (round.foldl (sweepNode edges) state).changed = true →
        state.visited < (round.foldl (sweepNode edges) state).visited)
      ∧ ((round.foldl (sweepNode edges) state).changed = false →
        round.foldl (sweepNode edges) state = state
          ∧ ∀ node ∈ round, state.removed node = true ∨ state.incoming node ≠ 0) := by
  induction round generalizing state with
  | nil =>
    refine ⟨inv, le_refl _, fun still changed => ?_, fun _ => ⟨rfl, by simp⟩⟩
    rw [foldl_nil, still] at changed
    cases changed
  | cons node rest ih =>
    obtain ⟨kept, more, strictly, still⟩ := ih
      (fun y mem => within y (mem_cons_of_mem _ mem))
      (inv.step distinct (within node mem_cons_self))
    rw [foldl_cons]
    by_cases free : (!state.removed node && state.incoming node == 0) = true
    · have here : (sweepNode edges state node).visited = state.visited + 1
          ∧ (sweepNode edges state node).changed = true := by
        unfold sweepNode
        rw [if_pos free]
        exact ⟨rfl, rfl⟩
      refine ⟨kept, by omega, fun _ _ => by omega, fun unchanged => ?_⟩
      obtain ⟨same, _⟩ := still unchanged
      rw [same, here.2] at unchanged
      cases unchanged
    · have here : sweepNode edges state node = state := if_neg free
      rw [here] at kept more strictly still ⊢
      refine ⟨kept, more, strictly, fun unchanged => ?_⟩
      obtain ⟨same, rest⟩ := still unchanged
      refine ⟨same, fun y mem => ?_⟩
      rcases mem_cons.mp mem with rfl | later
      · rw [Bool.and_eq_true, Bool.not_eq_true', beq_iff_eq, not_and] at free
        by_cases gone : state.removed y = true
        · exact .inl gone
        · exact .inr (free (Bool.not_eq_true _ ▸ gone))
      · exact rest y later

/-- What the loop has counted when a round changes nothing. -/
theorem SweepInvariant.visited_iff (inv : SweepInvariant edges nodes state)
    (inside : ∀ x y, EdgeOf edges x y → x ∈ nodes ∧ y ∈ nodes)
    (still : ∀ node ∈ nodes, state.removed node = true ∨ state.incoming node ≠ 0) :
    state.visited = nodes.length ↔ Acyclic (EdgeOf edges) := by
  rw [inv.visited, countP_eq_length]
  constructor
  · intro all node cycle
    obtain ⟨next, step, _⟩ := TransGen.head'_iff.mp cycle
    have ends := inv.ends node (all node (inside node next step).1)
    exact not_transGen_of_ends ends (transGen_swap.mp cycle)
  · intro acyclic
    by_contra left
    push Not at left
    -- among the nodes left over one has no parent left over
    obtain ⟨node, ⟨known, present⟩, x⟩ := acyclic.exists_source
      (nodes.finite_toSet.subset
        fun node (mem : node ∈ nodes ∧ state.removed node ≠ true) => mem.1) left
    refine (still node known).elim present fun some => some ?_
    rw [inv.counts, leftInto_eq_zero]
    intro start edge
    by_contra waiting
    exact x start ⟨(inside start node edge).1, waiting⟩ edge

/-- **The rounds count every node exactly when the graph is acyclic.** -/
theorem sweepRounds_spec (distinct : nodes.Nodup)
    (inside : ∀ x y, EdgeOf edges x y → x ∈ nodes ∧ y ∈ nodes)
    {fuel : Nat} (inv : SweepInvariant edges nodes state)
    (enough : nodes.length < fuel + state.visited) :
    ∃ visited, sweepRounds edges nodes fuel state = some visited
      ∧ (visited = nodes.length ↔ Acyclic (EdgeOf edges)) := by
  induction fuel generalizing state with
  | zero =>
    have bound : state.visited ≤ nodes.length := by
      rw [inv.visited]
      exact countP_le_length
    omega
  | succ fuel ih =>
    have start : SweepInvariant edges nodes { state with changed := false } :=
      ⟨inv.counts, inv.visited, inv.ends⟩
    obtain ⟨kept, _, strictly, still⟩ := sweep_round distinct nodes (fun _ => id) start
    rw [sweepRounds]
    cases changed : (nodes.foldl (sweepNode edges) { state with changed := false }).changed with
    | true =>
      have more := strictly rfl changed
      dsimp only at more
      exact ih kept (by omega)
    | false =>
      obtain ⟨same, rest⟩ := still changed
      refine ⟨_, rfl, kept.visited_iff inside ?_⟩
      rw [same]
      exact rest

theorem sweepInvariant_start (nodes : List α) {incoming : α → Nat}
    (counts : ∀ node, incoming node = edges.countP fun edge => edge.2 = node) :
    SweepInvariant edges nodes ⟨incoming, fun _ => false, 0, false⟩ where
  counts := fun node => by simp [counts, leftInto]
  visited := by simp
  ends := by simp

end Sweep

end FoundationLang.Library
