/-
**Chains of links.**

Nodes that are linked one to the next, as a list that is built into its nodes is.

* `LinkPath` — the nodes on the way from one link to another.
* `LinkPath.congr`, `LinkPath.relink` — what happens to a path if links change: nothing if they are not on it,
  and its end if the link is the last one.
* `Link` — the place of a link: the head, or in a node. A node is taken out of a chain by a change of
  the link to it (`LinkPath.unlink`).
-/

import Mathlib.Data.List.Nodup
import Mathlib.Logic.Function.Basic

namespace FoundationLang.Library

open List

variable {A : Type}

/-- **The nodes between two links.** -/
def LinkPath (next : A → Option A) : Option A → List A → Option A → Prop
  | first, [], final => first = final
  | first, node :: rest, final => first = some node ∧ LinkPath next (next node) rest final

variable {next next' : A → Option A} {first final : Option A} {nodes : List A} {node : A}

@[simp]
theorem path_cons :
    LinkPath next first (node :: nodes) final ↔ first = some node ∧ LinkPath next (next node) nodes final :=
  Iff.rfl

/-- A way over a node in the middle. -/
theorem path_append {front back : List A} :
    LinkPath next first (front ++ back) final ↔
      ∃ m, LinkPath next first front m ∧ LinkPath next m back final := by
  induction front generalizing first with
  | nil =>
    constructor
    · exact fun path => ⟨first, rfl, path⟩
    · rintro ⟨_, rfl, path⟩
      exact path
  | cons node front ih =>
    rw [cons_append, path_cons, ih]
    constructor
    · rintro ⟨same, m, path, path'⟩
      exact ⟨m, ⟨same, path⟩, path'⟩
    · rintro ⟨m, ⟨same, path⟩, path'⟩
      exact ⟨same, m, path, path'⟩

theorem LinkPath.congr (path : LinkPath next first nodes final)
    (same : ∀ node ∈ nodes, next' node = next node) : LinkPath next' first nodes final := by
  induction nodes generalizing first with
  | nil => exact path
  | cons node nodes ih =>
    obtain ⟨starts, path⟩ := path
    refine ⟨starts, ?_⟩
    rw [same node mem_cons_self]
    exact ih path fun y mem => same y (mem_cons_of_mem _ mem)

theorem LinkPath.first_eq_none (path : LinkPath next first nodes none) : first = none ↔ nodes = [] := by
  cases nodes with
  | nil => exact iff_of_true path rfl
  | cons =>
    rw [path.1]
    exact iff_of_false (Option.some_ne_none _) (cons_ne_nil _ _)

section Changed

variable [DecidableEq A]

theorem LinkPath.update (path : LinkPath next first nodes final) (absent : node ∉ nodes)
    (link : Option A) : LinkPath (Function.update next node link) first nodes final := by
  refine path.congr fun y mem => Function.update_of_ne ?_ _ _
  rintro rfl
  exact absent mem

/-- **A change of the last link.** -/
theorem LinkPath.relink (path : LinkPath next first (nodes ++ [node]) final)
    (absent : node ∉ nodes) (link : Option A) :
    LinkPath (Function.update next node link) first (nodes ++ [node]) link := by
  obtain ⟨m, path, last, _⟩ := path_append.mp path
  refine path_append.mpr ⟨m, path.update absent link, last, ?_⟩
  exact Function.update_self _ _ _

/-- The place of a link. -/
inductive Link (A : Type)
  | head
  | next (node : A)
deriving DecidableEq

/-- The link at a place. -/
def Link.read (next : A → Option A) (head : Option A) : Link A → Option A
  | .head => head
  | .next node => next node

/-- The link behind the last of the nodes. -/
def Link.behind (nodes : List A) : Link A :=
  match nodes.getLast? with
  | none => .head
  | some node => .next node

/-- The links of the nodes after a change. -/
def Link.writeNext (next : A → Option A) (link : Option A) : Link A → A → Option A
  | .head => next
  | .next node => Function.update next node link

/-- The head after a change. -/
def Link.writeHead (head link : Option A) : Link A → Option A
  | .head => link
  | .next _ => head

omit [DecidableEq A] in
theorem Link.behind_concat (nodes : List A) (node : A) :
    Link.behind (nodes ++ [node]) = .next node := by
  unfold Link.behind
  rw [List.getLast?_concat]

omit [DecidableEq A] in
theorem LinkPath.read (path : LinkPath next first nodes final) :
    (Link.behind nodes).read next first = final := by
  rcases eq_nil_or_concat nodes with rfl | ⟨_, _, rfl⟩
  · exact path
  · rw [concat_eq_append] at path ⊢
    rw [Link.behind_concat]
    obtain ⟨_, _, _, ends⟩ := path_append.mp path
    exact ends

/-- **A node is taken out of a chain.** -/
theorem LinkPath.unlink {front back : List A} (distinct : (front ++ node :: back).Nodup)
    (path : LinkPath next first (front ++ node :: back) final) :
    LinkPath ((Link.behind front).writeNext next (next node)) ((Link.behind front).writeHead first (next node))
      (front ++ back) final := by
  obtain ⟨_, path, _, rest⟩ := path_append.mp path
  rcases eq_nil_or_concat front with rfl | ⟨others, last, rfl⟩
  · exact rest
  · rw [concat_eq_append] at path distinct ⊢
    rw [Link.behind_concat]
    obtain ⟨apart, _, disjoint⟩ := nodup_append.mp distinct
    have once : last ∉ others := fun mem =>
      (nodup_append.mp apart).2.2 last mem last mem_cons_self rfl
    have away : last ∉ back := fun mem =>
      disjoint last (by simp) last (mem_cons_of_mem _ mem) rfl
    exact path_append.mpr ⟨next node, path.relink once (next node), rest.update away (next node)⟩

end Changed

end FoundationLang.Library
