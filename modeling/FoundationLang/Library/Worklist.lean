/-
**Worklists over a finite graph.**

Two loops with a stack of pending nodes, over a graph given by the successors of each node.

* `reachFrom` — pops a node, marks it, pushes its successors. What it marks is what the start
  reaches (`mem_reachFrom`).
* `removeSources` — pops a node without incoming edges, takes its edges away, pushes the successors
  that have none left. It removes every node exactly when the graph is acyclic
  (`length_removeSources_iff`).

The fuel of the first loop is the number of edges and one, of the second the number of nodes: with
it neither loop stops before its stack is empty.
-/

import FoundationLang.Library.Acyclic
import Mathlib.Algebra.GroupWithZero.Nat
import Mathlib.Algebra.Order.BigOperators.Group.List
import Mathlib.Data.Set.Finite.List
import Mathlib.Data.List.Nodup

namespace FoundationLang.Library

open Relation List Function

variable {α : Type} [DecidableEq α]
variable {incoming : α → Nat} {nodes : List α} {node : α}

/-! ### What is left -/

/-- A weight summed over the nodes that are not marked. -/
def sumLeft (weight : α → Nat) (nodes marked : List α) : Nat :=
  ((nodes.filter (· ∉ marked)).map weight).sum

theorem sumLeft_cons (weight : α → Nat) {marked : List α} (distinct : nodes.Nodup)
    (mem : node ∈ nodes) (fresh : node ∉ marked) :
    sumLeft weight nodes (node :: marked) + weight node = sumLeft weight nodes marked := by
  have left : node ∈ nodes.filter (· ∉ marked) := by
    simpa using ⟨mem, fresh⟩
  have perm := perm_cons_erase left
  have rest : (nodes.filter (· ∉ marked)).erase node = nodes.filter (· ∉ node :: marked) := by
    rw [(distinct.filter _).erase_eq_filter, filter_filter]
    refine filter_congr fun y _ => ?_
    by_cases same : y = node <;> simp [same]
  rw [rest] at perm
  unfold sumLeft
  rw [(perm.map _).sum_eq, map_cons, sum_cons, Nat.add_comm]

/-! ### Reachability -/

section Reach

variable (successors : α → List α)

/-- The search: the stack, its top first, and the nodes reached. -/
def reachFrom : Nat → List α → List α → List α
  | 0, _, reached => reached
  | _ + 1, [], reached => reached
  | fuel + 1, node :: pending, reached =>
    if node ∈ reached then reachFrom fuel pending reached
    else reachFrom fuel ((successors node).reverse ++ pending) (node :: reached)

/-- One edge of the graph. -/
def Successor (first second : α) : Prop :=
  second ∈ successors first

/-- The pushes that are still to come: the edges of the nodes not reached. -/
def pushesLeft (nodes reached : List α) : Nat :=
  sumLeft (fun node => (successors node).length) nodes reached

variable {successors} {start : α}

omit [DecidableEq α] in
/-- Marks that no edge leaves hold everything that one of them reaches. -/
theorem mem_of_closed {reached : List α} {start node : α} (started : start ∈ reached)
    (closed : ∀ first ∈ reached, ∀ second ∈ successors first, second ∈ reached)
    (reaches : ReflTransGen (Successor successors) start node) : node ∈ reached := by
  induction reaches with
  | refl => exact started
  | tail _ step ih => exact closed _ ih _ step

section

variable (distinct : nodes.Nodup)
  (inside : ∀ first ∈ nodes, ∀ second ∈ successors first, second ∈ nodes)
include distinct inside

/-- **What the search reaches.** It marks no node twice, and the marked nodes are those that the
start reaches. -/
theorem reachFrom_spec (fuel : Nat)
    (pending reached : List α) (unique : reached.Nodup) (within : ∀ node ∈ pending, node ∈ nodes)
    (started : start ∈ reached ∨ start ∈ pending)
    (sound : ∀ node, node ∈ reached ∨ node ∈ pending →
      ReflTransGen (Successor successors) start node)
    (closed : ∀ first ∈ reached, ∀ second ∈ successors first, second ∈ reached ∨ second ∈ pending)
    (enough : pending.length + pushesLeft successors nodes reached ≤ fuel) :
    (reachFrom successors fuel pending reached).Nodup ∧
      ∀ node, node ∈ reachFrom successors fuel pending reached
        ↔ ReflTransGen (Successor successors) start node := by
  induction fuel generalizing pending reached with
  | zero =>
    obtain rfl : pending = [] := length_eq_zero_iff.mp (by omega)
    simp only [not_mem_nil, or_false] at started closed
    exact ⟨unique, fun node => ⟨fun mem => sound node (.inl mem), fun reaches =>
      mem_of_closed started closed reaches⟩⟩
  | succ fuel ih =>
    cases pending with
    | nil =>
      simp only [not_mem_nil, or_false] at started closed
      exact ⟨unique, fun node => ⟨fun mem => sound node (.inl mem), fun reaches =>
        mem_of_closed started closed reaches⟩⟩
    | cons node pending =>
      rw [reachFrom]
      by_cases seen : node ∈ reached
      · rw [if_pos seen]
        refine ih pending reached unique (fun y mem => within y (by simp [mem]))
          ?_ (fun y mem => sound y ?_) (fun first mem second step => ?_) ?_
        · rcases started with marked | waiting
          · exact .inl marked
          · rcases mem_cons.mp waiting with same | later
            · exact .inl (same ▸ seen)
            · exact .inr later
        · exact mem.imp_right (mem_cons_of_mem node)
        · rcases closed first mem second step with marked | waiting
          · exact .inl marked
          · rcases mem_cons.mp waiting with same | later
            · exact .inl (same ▸ seen)
            · exact .inr later
        · simp only [length_cons] at enough
          omega
      · rw [if_neg seen]
        have known := within node (by simp)
        have weight : pushesLeft successors nodes (node :: reached) + (successors node).length
            = pushesLeft successors nodes reached := sumLeft_cons _ distinct known seen
        refine ih _ (node :: reached) (nodup_cons.mpr ⟨seen, unique⟩) ?_ ?_ ?_ ?_ ?_
        · intro y mem
          rcases mem_append.mp mem with pushed | waiting
          · exact inside node known y (mem_reverse.mp pushed)
          · exact within y (mem_cons_of_mem node waiting)
        · rcases started with marked | waiting
          · exact .inl (mem_cons_of_mem node marked)
          · rcases mem_cons.mp waiting with same | later
            · exact .inl (by simp [same])
            · exact .inr (mem_append_right _ later)
        · intro y mem
          have here := sound node (.inr (by simp))
          rcases mem with marked | waiting
          · rcases mem_cons.mp marked with same | earlier
            · exact same ▸ here
            · exact sound y (.inl earlier)
          · rcases mem_append.mp waiting with pushed | earlier
            · exact here.tail (mem_reverse.mp pushed)
            · exact sound y (.inr (mem_cons_of_mem node earlier))
        · intro first mem second step
          rcases mem_cons.mp mem with same | earlier
          · exact .inr (mem_append_left _ (mem_reverse.mpr (same ▸ step)))
          · rcases closed first earlier second step with marked | waiting
            · exact .inl (mem_cons_of_mem node marked)
            · rcases mem_cons.mp waiting with same | later
              · exact .inl (by simp [same])
              · exact .inr (mem_append_right _ later)
        · simp only [length_append, length_reverse, length_cons] at enough ⊢
          omega

theorem mem_reachFrom
    (known : start ∈ nodes) {fuel : Nat} (enough : 1 + pushesLeft successors nodes [] ≤ fuel) :
    (reachFrom successors fuel [start] []).Nodup ∧
      ∀ node, node ∈ reachFrom successors fuel [start] []
        ↔ ReflTransGen (Successor successors) start node := by
  refine reachFrom_spec distinct inside fuel [start] [] nodup_nil (by simpa using known)
    (by simp) (fun node mem => ?_) (by simp) (by simpa using enough)
  simp only [not_mem_nil, mem_singleton, false_or] at mem
  exact mem ▸ .refl

/-- **The search marks as many nodes as there are exactly when it reaches them all.** -/
theorem length_reachFrom_iff
    (known : start ∈ nodes) {fuel : Nat} (enough : 1 + pushesLeft successors nodes [] ≤ fuel) :
    (reachFrom successors fuel [start] []).length = nodes.length
      ↔ ∀ node ∈ nodes, ReflTransGen (Successor successors) start node := by
  obtain ⟨unique, reaches⟩ := mem_reachFrom distinct inside known enough
  have below : ∀ node ∈ reachFrom successors fuel [start] [], node ∈ nodes := by
    intro node mem
    have path := (reaches node).mp mem
    induction path with
    | refl => exact known
    | tail _ step ih => exact inside _ (ih ((reaches _).mpr ‹_›)) _ step
  have subperm := subperm_of_subset unique below
  constructor
  · intro length node mem
    have perm := subperm.perm_of_length_le (by omega)
    exact (reaches node).mp (perm.mem_iff.mpr mem)
  · intro all
    have back := subperm_of_subset distinct fun node mem =>
      (reaches node).mpr (all node mem)
    exact Nat.le_antisymm subperm.length_le back.length_le

end

end Reach

/-! ### Removing sources -/

section Sources

variable (successors : α → List α)

/-- One edge taken away: the new count of its end, which is pushed when none is left. -/
def release (state : (α → Nat) × List α) (node : α) : (α → Nat) × List α :=
  let count := state.1 node - 1
  (update state.1 node count, if count = 0 then node :: state.2 else state.2)

/-- The loop: the counts of incoming edges, the stack, and the nodes removed so far. -/
def removeSources : Nat → (α → Nat) → List α → List α → List α
  | 0, _, _, removed => removed
  | _ + 1, _, [], removed => removed
  | fuel + 1, incoming, node :: pending, removed =>
    let state := (successors node).foldl release (incoming, pending)
    removeSources fuel state.1 state.2 (node :: removed)

/-- The edges into a node from the nodes that are left. -/
def incomingFrom (nodes removed : List α) (node : α) : Nat :=
  sumLeft (fun parent => (successors parent).count node) nodes removed

/-- **The state of the loop**: the counts are those of the nodes left, and the nodes without
incoming edges are those removed or on the stack. -/
structure SourcesInvariant (nodes : List α) (incoming : α → Nat) (pending removed : List α) :
    Prop where
  unique : (removed ++ pending).Nodup
  within : ∀ node ∈ removed ++ pending, node ∈ nodes
  counts : ∀ node, incoming node = incomingFrom successors nodes removed node
  sources : ∀ node ∈ nodes, incoming node = 0 ↔ node ∈ removed ++ pending
  acyclic : ∀ node ∈ removed, ¬TransGen (Successor successors) node node

variable {successors} {pending removed : List α}

theorem incomingFrom_eq_zero {removed : List α} :
    incomingFrom successors nodes removed node = 0
      ↔ ∀ parent ∈ nodes, node ∈ successors parent → parent ∈ removed := by
  unfold incomingFrom sumLeft
  rw [List.sum_eq_zero_iff_forall_eq_nat]
  constructor
  · intro none parent known step
    by_contra left
    have zero := none _ (mem_map_of_mem (mem_filter.mpr ⟨known, decide_eq_true left⟩))
    exact count_eq_zero.mp zero step
  · intro all count mem
    obtain ⟨parent, left, rfl⟩ := mem_map.mp mem
    obtain ⟨known, left⟩ := mem_filter.mp left
    refine count_eq_zero.mpr fun step => ?_
    exact of_decide_eq_true left (all parent known step)

/-- **What the inner loop does**, when no count goes below zero: it takes the occurrences of each
node off its count and pushes the nodes that have none left. -/
theorem foldl_release {ends : List α} {pending : List α}
    (covered : ∀ node, ends.count node ≤ incoming node) (unique : pending.Nodup)
    (apart : ∀ node ∈ pending, node ∉ ends) :
    (∀ node, (ends.foldl release (incoming, pending)).1 node
        = incoming node - ends.count node) ∧
      (ends.foldl release (incoming, pending)).2.Nodup ∧
      ∀ node, node ∈ (ends.foldl release (incoming, pending)).2
        ↔ node ∈ pending ∨ (node ∈ ends ∧ incoming node = ends.count node) := by
  induction ends generalizing incoming pending with
  | nil => simpa using unique
  | cons first rest ih =>
    have pos := covered first
    rw [count_cons_self] at pos
    have covered' (node : α) :
        rest.count node ≤ update incoming first (incoming first - 1) node := by
      have here := covered node
      by_cases same : node = first
      · subst same
        rw [update_self]
        omega
      · rw [update_of_ne same]
        rwa [count_cons_of_ne (Ne.symm same)] at here
    rw [foldl_cons]
    simp only [release]
    by_cases last : incoming first - 1 = 0
    · have gone : first ∉ rest := count_eq_zero.mp (by omega)
      rw [if_pos last]
      obtain ⟨counts, nodup, ms⟩ := ih covered'
        (nodup_cons.mpr ⟨fun waiting => apart first waiting (by simp), unique⟩)
        (fun node waiting => by
          rcases mem_cons.mp waiting with same | earlier
          · exact same ▸ gone
          · exact fun later => apart node earlier (mem_cons_of_mem first later))
      refine ⟨fun node => ?_, nodup, fun node => ?_⟩
      · rw [counts]
        by_cases same : node = first
        · subst same
          rw [update_self, count_cons_self]
          omega
        · rw [update_of_ne same, count_cons_of_ne (Ne.symm same)]
      · rw [ms, mem_cons, mem_cons]
        by_cases same : node = first
        · subst same
          rw [count_cons_self]
          simp only [true_or, true_and, true_iff]
          omega
        · rw [update_of_ne same, count_cons_of_ne (Ne.symm same)]
          simp [same]
    · rw [if_neg last]
      obtain ⟨counts, nodup, ms⟩ := ih covered' unique
        (fun node waiting later => apart node waiting (mem_cons_of_mem first later))
      refine ⟨fun node => ?_, nodup, fun node => ?_⟩
      · rw [counts]
        by_cases same : node = first
        · subst same
          rw [update_self, count_cons_self]
          omega
        · rw [update_of_ne same, count_cons_of_ne (Ne.symm same)]
      · rw [ms, mem_cons]
        by_cases same : node = first
        · subst same
          rw [update_self, count_cons_self]
          have step : incoming node - 1 = rest.count node
              ↔ incoming node = rest.count node + 1 := by omega
          rw [step]
          refine or_congr_right (and_congr_left fun exact => ?_)
          have : 0 < rest.count node := by omega
          simp [count_pos_iff.mp this]
        · rw [update_of_ne same, count_cons_of_ne (Ne.symm same)]
          simp [same]

theorem SourcesInvariant.parents
    (inv : SourcesInvariant successors nodes incoming pending removed)
    (inside : ∀ first second, second ∈ successors first → first ∈ nodes ∧ second ∈ nodes)
    {node parent : α} (mem : node ∈ removed ++ pending) (step : node ∈ successors parent) :
    parent ∈ removed := by
  have zero := (inv.sources node (inv.within node mem)).mpr mem
  rw [inv.counts, incomingFrom_eq_zero] at zero
  exact zero parent (inside parent node step).1 step

/-- **One step of the loop keeps its state.** -/
theorem SourcesInvariant.step
    (inv : SourcesInvariant successors nodes incoming (node :: pending) removed)
    (distinct : nodes.Nodup)
    (inside : ∀ first second, second ∈ successors first → first ∈ nodes ∧ second ∈ nodes) :
    SourcesInvariant successors nodes ((successors node).foldl release (incoming, pending)).1
      ((successors node).foldl release (incoming, pending)).2 (node :: removed) := by
  have waiting : node ∈ removed ++ node :: pending := by simp
  have known := inv.within node waiting
  obtain ⟨distinctRemoved, distinctPending, disjoint⟩ := nodup_append'.mp inv.unique
  obtain ⟨fresh, uniquePending⟩ := nodup_cons.mp distinctPending
  have left : node ∉ removed := fun gone => disjoint gone (by simp)
  have loses (other : α) := sumLeft_cons (fun parent => (successors parent).count other) distinct
    known left
  have covered (other : α) : (successors node).count other ≤ incoming other := by
    rw [inv.counts]
    exact (loses other).le.trans' (Nat.le_add_left _ _)
  -- an end of an edge of `node` still has an incoming edge, so it is not waiting
  have apart (other : α) (mem : other ∈ removed ++ node :: pending) :
      other ∉ successors node := fun step => left (inv.parents inside mem step)
  have parted : ∀ other ∈ pending, other ∉ successors node :=
    fun other mem => apart other (by simp [mem])
  obtain ⟨counts, nodup, ms⟩ := foldl_release covered uniquePending parted
  refine ⟨?_, ?_, fun other => ?_, fun other present => ?_, ?_⟩
  · refine nodup_append'.mpr ⟨nodup_cons.mpr ⟨left, distinctRemoved⟩, nodup, ?_⟩
    intro other gone pushed
    rcases (ms other).mp pushed with earlier | ⟨step, _⟩
    · rcases mem_cons.mp gone with same | removed
      · exact fresh (same ▸ earlier)
      · exact disjoint removed (mem_cons_of_mem node earlier)
    · refine apart other ?_ step
      rcases mem_cons.mp gone with same | removed
      · exact same ▸ waiting
      · exact mem_append_left _ removed
  · intro other mem
    rcases mem_append.mp mem with gone | pushed
    · rcases mem_cons.mp gone with same | removed
      · exact same ▸ known
      · exact inv.within other (mem_append_left _ removed)
    · rcases (ms other).mp pushed with earlier | ⟨step, _⟩
      · exact inv.within other (by simp [earlier])
      · exact (inside node other step).2
  · rw [counts, inv.counts]
    have := loses other
    unfold incomingFrom
    omega
  · rw [counts]
    have before := inv.sources other present
    have enough := covered other
    by_cases step : other ∈ successors node
    · have still := before.not.mpr fun mem => apart other mem step
      have absent : other ∉ node :: removed ∧ other ∉ pending := by
        refine ⟨fun gone => apart other ?_ step, fun earlier => apart other ?_ step⟩
        · rcases mem_cons.mp gone with same | removed
          · exact same ▸ waiting
          · exact mem_append_left _ removed
        · simp [earlier]
      rw [mem_append, ms]
      simp only [absent.1, absent.2, step, true_and, false_or]
      omega
    · rw [count_eq_zero.mpr step, Nat.sub_zero, before, mem_append, mem_append,
        ms]
      simp only [mem_cons, step, false_and, or_false]
      tauto
  · intro other gone cycle
    rcases mem_cons.mp gone with same | earlier
    · -- a cycle through `node` enters it from a removed parent, and the removed nodes have only
      -- removed ancestors
      subst same
      obtain ⟨parent, path, step⟩ := TransGen.tail'_iff.mp cycle
      have closed : ∀ first last, ReflTransGen (Successor successors) first last →
          last ∈ removed → first ∈ removed := by
        intro first last path
        induction path with
        | refl => exact id
        | tail _ step ih =>
          exact fun gone => ih (inv.parents inside (by simp [gone]) step)
      exact left (closed other parent path (inv.parents inside waiting step))
    · exact inv.acyclic other earlier cycle

/-- **What the loop leaves**: with enough fuel the stack is empty. -/
theorem removeSources_spec (distinct : nodes.Nodup)
    (inside : ∀ first second, second ∈ successors first → first ∈ nodes ∧ second ∈ nodes)
    (fuel : Nat)
    (inv : SourcesInvariant successors nodes incoming pending removed)
    (enough : nodes.length ≤ fuel + removed.length) :
    ∃ counts, SourcesInvariant successors nodes counts []
      (removeSources successors fuel incoming pending removed) := by
  induction fuel generalizing incoming pending removed with
  | zero =>
    have below := (subperm_of_subset inv.unique inv.within).length_le
    rw [length_append] at below
    obtain rfl : pending = [] := length_eq_zero_iff.mp (by omega)
    exact ⟨incoming, inv⟩
  | succ fuel ih =>
    cases pending with
    | nil => exact ⟨incoming, inv⟩
    | cons =>
      refine ih (inv.step distinct inside) ?_
      rw [length_cons]
      omega

theorem sourcesInvariant_start {sources : List α}
    (counts : ∀ node, incoming node = incomingFrom successors nodes [] node)
    (unique : sources.Nodup) (ms : ∀ node, node ∈ sources ↔ node ∈ nodes ∧ incoming node = 0) :
    SourcesInvariant successors nodes incoming sources [] where
  unique := by simpa using unique
  within := fun node mem => ((ms node).mp (by simpa using mem)).1
  counts := counts
  sources := fun node known => by simp [ms, known]
  acyclic := by simp

/-- **The loop removes every node exactly when the graph is acyclic.** -/
theorem length_removeSources_iff {sources : List α} (distinct : nodes.Nodup)
    (inside : ∀ first second, second ∈ successors first → first ∈ nodes ∧ second ∈ nodes)
    (counts : ∀ node, incoming node = incomingFrom successors nodes [] node)
    (unique : sources.Nodup) (ms : ∀ node, node ∈ sources ↔ node ∈ nodes ∧ incoming node = 0) :
    (removeSources successors nodes.length incoming sources []).length = nodes.length
      ↔ Acyclic (Successor successors) := by
  obtain ⟨final, inv⟩ := removeSources_spec distinct inside nodes.length
    (sourcesInvariant_start counts unique ms) (by simp)
  generalize removeSources successors nodes.length incoming sources [] = removed at inv
  obtain ⟨uniqueRemoved, within, left, zero, acyclic⟩ := inv
  rw [append_nil] at uniqueRemoved within zero
  have subperm := subperm_of_subset uniqueRemoved within
  constructor
  · intro length node cycle
    have perm := subperm.perm_of_length_le (by omega)
    obtain ⟨next, step, _⟩ := TransGen.head'_iff.mp cycle
    exact acyclic node (perm.mem_iff.mpr (inside node next step).1) cycle
  · intro acyclicGraph
    have all : ∀ node ∈ nodes, node ∈ removed := by
      by_contra some
      -- among the nodes left over one has no parent left over
      obtain ⟨node, ⟨known, present⟩, first⟩ := acyclicGraph.exists_source
        (nodes.finite_toSet.subset fun node (mem : node ∈ nodes ∧ node ∉ removed) => mem.1)
        (by push Not at some; exact some)
      refine present ((zero node known).mp ?_)
      rw [left, incomingFrom_eq_zero]
      intro parent present step
      by_contra left
      exact first parent ⟨present, left⟩ step
    have back := subperm_of_subset distinct all
    exact Nat.le_antisymm subperm.length_le back.length_le

end Sources

end FoundationLang.Library
