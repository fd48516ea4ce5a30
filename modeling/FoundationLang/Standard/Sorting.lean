/-
**`Sort` of `std.collections`.**

The comparison has a memory: its answers need not agree with each other.
-/

import FoundationLang.Standard.Collections
import Mathlib.Order.Basic
import Mathlib.Tactic.SplitIfs

namespace FoundationLang.Standard

open Library Outcome List

namespace LinkedList

variable {σ α ε : Type}

/-- `optionValue`, with the panic of `missingValue`. -/
def optionValue : Option α → Outcome ε α
  | none => panic (.message "collection option invariant failed")
  | some item => .ok item

theorem popFront_len {src : LinkedList α} (more : ¬src.isEmpty) :
    src.popFront.2.len < src.len := by
  obtain ⟨_ | ⟨item, next⟩, bounded⟩ := src
  · exact absurd rfl more
  · exact Nat.lt_succ_self _

/-- `while !source.IsEmpty()`, with one `PopFront` a round. -/
def drain (visit : σ → α → Outcome ε σ) (source : LinkedList α) (memory : σ) : Outcome ε σ :=
  if _ : source.isEmpty then .ok memory
  else do
    let item ← optionValue source.popFront.1
    drain visit source.popFront.2 (← visit memory item)
termination_by source.len
decreasing_by exact popFront_len ‹_›

/-- **What a round keeps, the loop keeps.** -/
theorem drain_run {visit : σ → α → Outcome ε σ} {Holds : List α → σ → Prop}
    (round : ∀ {item xs memory}, Holds (item :: xs) memory →
      ∃ next, visit memory item = .ok next ∧ Holds xs next)
    {src : LinkedList α} {memory : σ} (holds : Holds src.items memory) :
    ∃ after, drain visit src memory = .ok after ∧ Holds [] after := by
  obtain ⟨xs, bounded⟩ := src
  induction xs generalizing memory with
  | nil =>
    unfold drain
    rw [dif_pos (by rfl)]
    exact ⟨memory, rfl, holds⟩
  | cons item xs ih =>
    obtain ⟨next, visited, kept⟩ := round holds
    rw [drain, dif_neg (by simp [isEmpty, len])]
    dsimp only [popFront, optionValue]
    rw [ok_bind, visited, ok_bind]
    exact ih _ kept

/-- The answer is negative exactly if the first value is strictly below the second. -/
structure TotalPreorder (compare : α → α → σ → ℤ × σ) (le : α → α → Prop) : Prop where
  total : ∀ one two, le one two ∨ le two one
  trans : ∀ {one two three}, le one two → le two three → le one three
  sign : ∀ one two memory, (compare one two memory).1 < 0 ↔ ¬le two one

variable (compare : α → α → σ → ℤ × σ)

/-- A round of the inner loop, over `best`, `remaining` and the memory. -/
def challenge : α × LinkedList α × σ → α → Outcome ε (α × LinkedList α × σ)
  | (best, remaining, memory), candidate => do
    let (answer, memory) := compare candidate best memory
    if answer < 0 then return (candidate, ← remaining.pushFront best, memory)
    else return (best, ← remaining.pushFront candidate, memory)

/-- No item is lost, and the best of those that were seen is apart. -/
structure Selected (source : LinkedList α) (items : List α) (state : α × LinkedList α × σ) :
    Prop where
  perm : (state.1 :: (items ++ state.2.1.items)).Perm source.items
  least : ∀ le, TotalPreorder compare le → ∀ item ∈ state.2.1.items, le state.1 item

variable {compare}

theorem Selected.round {src : LinkedList α} {c : α} {xs : List α}
    {s : α × LinkedList α × σ} (selected : Selected compare src (c :: xs) s) :
    ∃ next, (challenge compare s c : Outcome ε _) = .ok next ∧
      Selected compare src xs next := by
  obtain ⟨best, left, memory⟩ := s
  obtain ⟨perm, least⟩ := selected
  have length := perm.length_eq
  have bounded := src.bounded
  simp only [length_cons, length_append] at length
  dsimp only [challenge]
  split_ifs with less
  · obtain ⟨longer, pushed, same⟩ := left.pushFront_ok (ε := ε) best (by omega)
    refine ⟨_, by rw [pushed]; rfl, ?_, fun le orders => ?_⟩
    · rw [same]
      exact ((perm_middle.cons c).trans (.swap _ _ _)).trans perm
    · rw [same]
      have first := (orders.total best c).resolve_left ((orders.sign _ _ _).mp less)
      exact forall_mem_cons.mpr
        ⟨first, fun item mem => orders.trans first (least le orders item mem)⟩
  · obtain ⟨longer, pushed, same⟩ := left.pushFront_ok (ε := ε) c (by omega)
    refine ⟨_, by rw [pushed]; rfl, ?_, fun le orders => ?_⟩
    · rw [same]
      exact (perm_middle.cons best).trans perm
    · rw [same]
      have first := not_not.mp ((orders.sign _ _ _).not.mp less)
      exact forall_mem_cons.mpr ⟨first, least le orders⟩

variable (compare)

theorem selected_pass {pending : LinkedList α} {best : α} (memory : σ)
    (first : optionValue pending.popFront.1 = (.ok best : Outcome ε α)) :
    ∃ state, (drain (challenge compare) pending.popFront.2 (best, newList, memory) : Outcome ε _) =
        .ok state ∧
      Selected compare pending [] state := by
  obtain ⟨_ | ⟨item, xs⟩, bounded⟩ := pending
  · cases first
  · cases first
    refine drain_run Selected.round ⟨?_, fun _ _ _ mem => absurd mem not_mem_nil⟩
    rw [newList_items, append_nil]
    rfl

/-- The outer loop. -/
def selectAll (pending selected : LinkedList α) (memory : σ) : Outcome ε (LinkedList α × σ) :=
  if _ : pending.isEmpty then .ok (selected, memory)
  else
    match _ : (optionValue pending.popFront.1 : Outcome ε α) with
    | .error stop => .error stop
    | .ok best =>
      match _ : drain (challenge compare) pending.popFront.2 (best, newList, memory) with
      | .error stop => .error stop
      | .ok (best, remaining, memory) => do selectAll remaining (← selected.pushFront best) memory
termination_by pending.len
decreasing_by
  have passed := ‹drain _ _ _ = _›
  obtain ⟨_, same, kept⟩ := selected_pass compare _ ‹_›
  cases same.symm.trans passed
  exact Nat.lt_of_succ_le (Nat.le_of_eq kept.perm.length_eq)

theorem selectAll_run (pending selected : LinkedList α) (memory : σ)
    (small : pending.items.length + selected.items.length < 2 ^ 31) :
    ∃ all after, (selectAll compare pending selected memory : Outcome ε _) = .ok (all, after) ∧
      all.items.Perm (pending.items ++ selected.items) ∧
      ∀ le, TotalPreorder compare le → selected.items.Pairwise (fun one two => le two one) →
        (∀ one ∈ selected.items, ∀ two ∈ pending.items, le one two) →
        all.items.Pairwise fun one two => le two one := by
  induction rounds : pending.len using Nat.strongRecOn generalizing pending selected memory with
  | ind rounds ih =>
    obtain ⟨_ | ⟨x, xs⟩, bounded⟩ := pending
    · unfold selectAll
      rw [dif_pos (by rfl)]
      exact ⟨selected, memory, rfl, .refl _, fun _ _ ordered _ => ordered⟩
    · dsimp only [length_cons] at small
      obtain ⟨⟨best, left, next⟩, passed, perm, least⟩ :=
        @selected_pass _ _ ε compare ⟨x :: xs, bounded⟩ x memory rfl
      obtain ⟨longer, pushed, grown⟩ := selected.pushFront_ok (ε := ε) best (by omega)
      have length : left.items.length = xs.length := Nat.succ.inj perm.length_eq
      obtain ⟨all, after, run, same, ordered⟩ := ih left.len
        (rounds ▸ length.trans_lt (Nat.lt_succ_self _)) left longer next
        (by rw [grown, length, length_cons]; omega) rfl
      rw [grown] at same ordered
      refine ⟨all, after, ?_, same.trans (perm_middle.trans (perm.append_right _)), ?_⟩
      · rw [selectAll, dif_neg (by simp [isEmpty, len])]
        dsimp only [popFront, optionValue] at passed ⊢
        rw [passed]
        dsimp only
        rw [pushed, ok_bind, run]
      · intro le orders turned below
        refine ordered le orders (pairwise_cons.mpr ⟨fun one mem => ?_, turned⟩) ?_
        · exact below one mem _ (perm.mem_iff.mp mem_cons_self)
        · refine forall_mem_cons.mpr ⟨least le orders, fun one mem two mem' => ?_⟩
          exact below one mem two (perm.mem_iff.mp (mem_cons_of_mem _ mem'))

theorem drain_pushFront (src : LinkedList α) :
    ∃ result : LinkedList α, (drain pushFront src newList : Outcome ε _) = .ok result ∧
      result.items = src.items.reverse := by
  refine @drain_run _ _ _ pushFront (fun xs result => xs.reverse ++ result.items = _)
    (fun {item xs result} turned => ?_) src newList (append_nil _)
  have length := congrArg List.length turned
  have bounded := src.bounded
  simp only [length_append, length_reverse, length_cons] at length
  obtain ⟨next, pushed, same⟩ := result.pushFront_ok (ε := ε) item (by omega)
  exact ⟨next, pushed, by simpa [same] using turned⟩

/-- `Sort`, with the memory that the comparison is left with. -/
def sort (values : LinkedList α) (memory : σ) : Outcome ε (LinkedList α × σ) := do
  let (selected, memory) ← selectAll compare values newList memory
  return (← drain pushFront selected newList, memory)

/-- **`Sort` ends with a permutation of the list, and a total preorder puts it in order.** -/
theorem sort_correct (values : LinkedList α) (memory : σ) :
    ∃ sorted after, (sort compare values memory : Outcome ε _) = .ok (sorted, after) ∧
      sorted.items.Perm values.items ∧
      ∀ le, TotalPreorder compare le → sorted.items.Pairwise le := by
  obtain ⟨all, after, run, perm, ordered⟩ := selectAll_run (ε := ε) compare values newList memory
    values.bounded
  obtain ⟨sorted, turned, same⟩ := drain_pushFront (ε := ε) all
  rw [newList_items, append_nil] at perm
  refine ⟨sorted, after, ?_, same ▸ (reverse_perm _).trans perm, fun le orders => ?_⟩
  · unfold sort
    rw [run, ok_bind]
    dsimp only
    rw [turned]
    rfl
  · rw [same, pairwise_reverse]
    exact ordered le orders .nil fun _ mem => absurd mem not_mem_nil

end LinkedList

end FoundationLang.Standard
