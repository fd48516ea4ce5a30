/-
**Acyclic relations.**

What a search over a finite graph has to show, and what a chain of edges gives.

* `Acyclic relation` — no node reaches itself in one or more steps.
* `acyclic_of_ends` — a relation whose chains of successors all end is acyclic; this is
  how a depth-first search that finishes every node proves it.
* `Acyclic.exists_source` — finitely many nodes have one without a parent among them; this is how a
  loop that takes nodes without parents away comes to its end.
* `transGen_of_isChain_mem` — a chain that comes back to one of its nodes is a cycle; this is how
  a depth-first search that meets its own stack refutes it.
-/

import Mathlib.Data.List.Chain
import Mathlib.Data.Fintype.Card
import Mathlib.Logic.Relation
import Mathlib.Order.WellFounded

namespace FoundationLang.Library

open Relation List

variable {α : Type*} {relation : α → α → Prop} {path : List α}

/-- No node reaches itself. -/
def Acyclic (relation : α → α → Prop) : Prop :=
  ∀ node, ¬TransGen relation node node

/-- A node all of whose chains of successors end. -/
abbrev Ends (relation : α → α → Prop) (node : α) : Prop :=
  Acc (fun next previous => relation previous next) node

theorem ends_of_successors {node : α} (successors : ∀ next, relation node next → Ends relation next) :
    Ends relation node :=
  Acc.intro node successors

theorem not_transGen_of_ends {node : α} (ends : Ends relation node) :
    ¬TransGen relation node node := by
  induction ends with
  | intro node _ ih =>
    intro cycle
    obtain ⟨next, step, back⟩ := TransGen.head'_iff.mp cycle
    exact ih next step (TransGen.tail' back step)

/-- **A relation whose chains all end is acyclic.** -/
theorem acyclic_of_ends (ends : ∀ node, Ends relation node) : Acyclic relation :=
  fun node => not_transGen_of_ends (ends node)

/-- Fewer edges cannot make a cycle. -/
theorem Acyclic.mono {smaller : α → α → Prop} (acyclic : Acyclic relation)
    (included : ∀ x y, smaller x y → relation x y) :
    Acyclic smaller :=
  fun node cycle => acyclic node (TransGen.mono included _ _ cycle)

/-- **Finitely many nodes of an acyclic relation have one that none of them leads to.** -/
theorem Acyclic.exists_source (acyclic : Acyclic relation) {nodes : Set α} (finite : nodes.Finite)
    (nonempty : ∃ node, node ∈ nodes) :
    ∃ node ∈ nodes, ∀ z ∈ nodes, ¬relation z node := by
  have : Finite nodes := finite
  let reaches : nodes → nodes → Prop := fun x y => TransGen relation x y
  have : IsTrans nodes reaches := ⟨fun _ _ _ one two => TransGen.trans one two⟩
  have : Std.Irrefl reaches := ⟨fun node => acyclic node⟩
  have wellFounded : WellFounded reaches := Finite.wellFounded_of_trans_of_irrefl reaches
  obtain ⟨start, mem⟩ := nonempty
  obtain ⟨node, _, least⟩ := wellFounded.has_min Set.univ ⟨⟨start, mem⟩, trivial⟩
  exact ⟨node, node.2, fun z present step => least ⟨z, present⟩ trivial (.single step)⟩

/-! ### Chains -/

theorem reflTransGen_of_isChain_cons {head node : α} {rest : List α}
    (chain : List.IsChain relation (head :: rest)) (mem : node ∈ head :: rest) :
    ReflTransGen relation head node := by
  have pairs := isChain_iff_pairwise.mp (chain.imp fun _ _ => ReflTransGen.single)
  rcases mem_cons.mp mem with rfl | later
  · exact ReflTransGen.refl
  · exact rel_of_pairwise_cons pairs later

theorem reflTransGen_getLast_of_mem {node last : α}
    (chain : List.IsChain relation (path ++ [last])) (mem : node ∈ path ++ [last]) :
    ReflTransGen relation node last := by
  have pairs := isChain_iff_pairwise.mp (chain.imp fun _ _ => ReflTransGen.single)
  rcases mem_append.mp mem with earlier | same
  · exact (pairwise_append.mp pairs).2.2 node earlier last (mem_singleton_self _)
  · exact mem_singleton.mp same ▸ ReflTransGen.refl

/-- **A chain that comes back to one of its nodes is a cycle.** -/
theorem transGen_of_isChain_mem {node last : α}
    (chain : List.IsChain relation (path ++ [last])) (mem : node ∈ path ++ [last])
    (step : relation last node) : TransGen relation node node :=
  TransGen.tail' (reflTransGen_getLast_of_mem chain mem) step

theorem nodup_of_isChain_acyclic (acyclic : Acyclic relation)
    (chain : List.IsChain relation path) : path.Nodup := by
  induction path with
  | nil => exact nodup_nil
  | cons x rest ih =>
    refine nodup_cons.mpr ⟨fun mem => ?_, ih (isChain_of_isChain_cons chain)⟩
    cases rest with
    | nil => cases mem
    | cons =>
      obtain ⟨step, tail⟩ := isChain_cons_cons.mp chain
      exact acyclic x (TransGen.head' step (reflTransGen_of_isChain_cons tail mem))

end FoundationLang.Library
