/-
**The package `std.collections`.**

A list is a chain of nodes with a count of them in an `i32`. Code that looks at a list takes it apart
and puts what it keeps into a new one, so that the order turns around every time.
-/

import FoundationLang.Library.Outcome

namespace FoundationLang.Standard

open Library Outcome List

/-! ### Lists -/

/-- **`List`.** The front is the head; its length is an `i32`. -/
structure LinkedList (α : Type) where
  items : List α
  bounded : items.length < 2 ^ 31

namespace LinkedList

variable {α β ε : Type}

/-- No values. -/
def newList : LinkedList α :=
  ⟨[], Nat.two_pow_pos 31⟩

/-- The count of the nodes. -/
def len (self : LinkedList α) : ℕ :=
  self.items.length

/-- There are no nodes. -/
def isEmpty (self : LinkedList α) : Bool :=
  self.len == 0

/-- A value in front; the count may overflow. -/
def pushFront (self : LinkedList α) (value : α) : Outcome ε (LinkedList α) :=
  if small : (value :: self.items).length < 2 ^ 31 then .ok ⟨value :: self.items, small⟩
  else panic .overflow

/-- The first value and the others. -/
def popFront : LinkedList α → Option α × LinkedList α
  | ⟨[], bounded⟩ => (none, ⟨[], bounded⟩)
  | ⟨value :: next, bounded⟩ => (some value, ⟨next, Nat.lt_of_succ_lt bounded⟩)

/-- Another value for every one. -/
def map (convert : α → β) (self : LinkedList α) : LinkedList β :=
  ⟨self.items.map convert, by rw [length_map]; exact self.bounded⟩

theorem map_pushFront (convert : α → β) (self : LinkedList α) (v : α) :
    ((self.map convert).pushFront (convert v) : Outcome ε _) =
      (self.pushFront v).map (·.map convert) := by
  unfold pushFront
  by_cases small : (v :: self.items).length < 2 ^ 31
  · rw [dif_pos small, dif_pos (by simpa [map] using small)]
    rfl
  · rw [dif_neg small, dif_neg (by simpa [map] using small)]
    rfl

theorem eq_of_items {x second : LinkedList α} (same : x.items = second.items) :
    x = second := by
  obtain ⟨_, _⟩ := x
  obtain ⟨_, _⟩ := second
  congr

@[simp]
theorem newList_items : (newList : LinkedList α).items = [] :=
  rfl

theorem pushFront_ok (self : LinkedList α) (v : α) (small : self.items.length + 1 < 2 ^ 31) :
    ∃ after : LinkedList α, (self.pushFront v : Outcome ε _) = .ok after ∧
      after.items = v :: self.items := by
  unfold pushFront
  rw [dif_pos (by simpa using small)]
  exact ⟨_, rfl, rfl⟩

theorem pushFront_eq_ok {self t : LinkedList α} {v : α}
    (same : (self.pushFront v : Outcome ε _) = .ok t) :
    t.items = v :: self.items := by
  unfold pushFront at same
  split at same
  · cases same
    rfl
  · cases same

end LinkedList

/-! ### Taking a list apart -/

section Sweep

variable {σ α β ε : Type}

/-- **The loop over a list that is taken apart.** `visit` changes what the loop remembers and says
whether the item goes into the new list. -/
def sweep (visit : σ → α → Outcome ε (σ × Bool)) : List α → σ → LinkedList α →
    Outcome ε (σ × LinkedList α)
  | [], memory, restored => .ok (memory, restored)
  | item :: source, memory, restored =>
    match visit memory item with
    | .error stop => .error stop
    | .ok (memory, false) => sweep visit source memory restored
    | .ok (memory, true) =>
      match restored.pushFront item with
      | .error stop => .error stop
      | .ok restored => sweep visit source memory restored

/-- What the loop remembers at the end. -/
def remembered (visit : σ → α → σ × Bool) : List α → σ → σ
  | [], memory => memory
  | item :: source, memory => remembered visit source (visit memory item).1

/-- The items that go into the new list, in the order of the old one. -/
def kept (visit : σ → α → σ × Bool) : List α → σ → List α
  | [], _ => []
  | item :: source, memory =>
    if (visit memory item).2 then item :: kept visit source (visit memory item).1
    else kept visit source (visit memory item).1

/-- **A loop over a list ends, without an overflow.** -/
theorem sweep_ok (visit : σ → α → σ × Bool) (src : List α) (memory : σ)
    (restored : LinkedList α) (small : src.length + restored.items.length < 2 ^ 31) :
    ∃ after : LinkedList α,
      (sweep (fun memory item => .ok (visit memory item)) src memory restored : Outcome ε _) =
        .ok (remembered visit src memory, after) ∧
      after.items = (kept visit src memory).reverse ++ restored.items := by
  induction src generalizing memory restored with
  | nil => exact ⟨restored, rfl, rfl⟩
  | cons item src ih =>
    rw [length_cons] at small
    rw [sweep, remembered, kept]
    rcases visited : visit memory item with ⟨next, keep⟩
    cases keep with
    | false => exact ih next restored (by omega)
    | true =>
      obtain ⟨longer, pushed, items⟩ := restored.pushFront_ok (ε := ε) item (by omega)
      obtain ⟨after, swept, final⟩ := ih next longer
        (by rw [items, length_cons]; omega)
      refine ⟨after, ?_, ?_⟩
      · dsimp only
        rw [pushed]
        exact swept
      · simp [final, items]

/-- A loop that keeps everything and may stop. -/
theorem sweep_look (look : σ → α → Outcome ε σ) (src : List α) (memory : σ)
    (restored : LinkedList α) (small : src.length + restored.items.length < 2 ^ 31) :
    ∃ after : LinkedList α, after.items = src.reverse ++ restored.items ∧
      sweep (fun memory item => do return (← look memory item, true)) src memory restored =
        (src.foldlM look memory >>= fun memory => .ok (memory, after)) := by
  induction src generalizing memory restored with
  | nil => exact ⟨restored, rfl, rfl⟩
  | cons item src ih =>
    rw [length_cons] at small
    obtain ⟨longer, pushed, items⟩ := restored.pushFront_ok (ε := ε) item (by omega)
    have room : src.length + longer.items.length < 2 ^ 31 := by
      rw [items, length_cons]
      omega
    rw [foldlM_cons, sweep]
    rcases looked : look memory item with _ | next
    · obtain ⟨after, same, _⟩ := ih memory longer room
      exact ⟨after, by simp [same, items], rfl⟩
    · obtain ⟨after, same, swept⟩ := ih next longer room
      refine ⟨after, by simp [same, items], ?_⟩
      simp only [ok_bind, pure, Except.pure, pushed]
      exact swept

theorem kept_filter (keep : α → Bool) {visit : σ → α → σ × Bool}
    (decides : ∀ memory item, (visit memory item).2 = keep item) (src : List α) (memory : σ) :
    kept visit src memory = src.filter keep := by
  induction src generalizing memory with
  | nil => rfl
  | cons item src ih =>
    rw [kept, decides, ih, filter_cons]

theorem kept_all {visit : σ → α → σ × Bool} (all : ∀ memory item, (visit memory item).2 = true)
    (source : List α) (memory : σ) : kept visit source memory = source := by
  rw [kept_filter (fun _ => true) all, filter_eq_self]
  exact fun _ _ => rfl

/-- A whole list that is taken apart, by a loop that keeps some of its items. -/
theorem sweep_filter {visit : σ → α → σ × Bool} (keep : α → Bool)
    (decides : ∀ memory item, (visit memory item).2 = keep item) (src : LinkedList α)
    (memory : σ) :
    ∃ after : LinkedList α,
      (sweep (fun memory item => .ok (visit memory item)) src.items memory .newList :
        Outcome ε _) = .ok (remembered visit src.items memory, after) ∧
      after.items = (src.items.filter keep).reverse := by
  obtain ⟨after, swept, items⟩ := sweep_ok (ε := ε) visit src.items memory .newList src.bounded
  rw [kept_filter keep decides, LinkedList.newList_items, append_nil] at items
  exact ⟨after, swept, items⟩

/-- A whole list that is taken apart, by a loop that keeps its items. -/
theorem sweep_reverse {visit : σ → α → σ × Bool}
    (all : ∀ memory item, (visit memory item).2 = true) (src : LinkedList α) (memory : σ) :
    ∃ after : LinkedList α,
      (sweep (fun memory item => .ok (visit memory item)) src.items memory .newList :
        Outcome ε _) = .ok (remembered visit src.items memory, after) ∧
      after.items = src.items.reverse := by
  obtain ⟨after, swept, items⟩ := sweep_filter (ε := ε) (fun _ => true) all src memory
  exact ⟨after, swept, items.trans (congrArg _ (filter_eq_self.mpr fun _ _ => rfl))⟩

/-- **Two loops that do the same.** -/
theorem sweep_map (convert : α → β) (visit : σ → α → Outcome ε (σ × Bool))
    (visit' : σ → β → Outcome ε (σ × Bool)) (src : List α)
    (same : ∀ memory, ∀ item ∈ src, visit' memory (convert item) = visit memory item)
    (memory : σ) (restored : LinkedList α) :
    sweep visit' (src.map convert) memory (restored.map convert) =
      (sweep visit src memory restored).map fun (memory, after) =>
        (memory, after.map convert) := by
  induction src generalizing memory restored with
  | nil => rfl
  | cons item src ih =>
    have same' := fun memory item mem => same memory item (mem_cons_of_mem _ mem)
    rw [map_cons, sweep, sweep, same memory item mem_cons_self]
    rcases visit memory item with stop | ⟨next, _ | _⟩
    · rfl
    · exact ih same' next restored
    · dsimp only
      rw [LinkedList.map_pushFront]
      rcases restored.pushFront item with _ | longer
      · rfl
      · exact ih same' next longer

end Sweep

/-! ### Queues -/

/-- The queue of two lists, and the order in which it holds its values (`Queue.items`). -/
structure Queue (α : Type) where
  front : LinkedList α
  back : LinkedList α

namespace Queue

variable {α ε : Type}

/-- No values. -/
def newQueue : Queue α :=
  ⟨.newList, .newList⟩

/-- A value behind all others. -/
def enqueue (self : Queue α) (value : α) : Outcome ε (Queue α) := do
  return { self with back := ← self.back.pushFront value }

/-- The loop of `rotate`. -/
def moved : List α → LinkedList α → Outcome ε (LinkedList α)
  | [], front => .ok front
  | value :: pending, front => do moved pending (← front.pushFront value)

/-- `back` turned around onto `front`. -/
def rotate (self : Queue α) : Outcome ε (Queue α) := do
  return ⟨← moved self.back.items self.front, .newList⟩

/-- The oldest value. -/
def dequeue (self : Queue α) : Outcome ε (Option α × Queue α) := do
  let self ← if self.front.isEmpty then self.rotate else .ok self
  let (value, front) := self.front.popFront
  return (value, { self with front })

/-- **The values of a queue**, the one that came first in front. -/
def items (self : Queue α) : List α :=
  self.front.items ++ self.back.items.reverse

@[simp]
theorem newQueue_items : (newQueue : Queue α).items = [] :=
  rfl

/-- A value that comes in is the last one. -/
theorem enqueue_ok (self : Queue α) (v : α) (small : self.items.length + 1 < 2 ^ 31) :
    ∃ after : Queue α, (self.enqueue v : Outcome ε _) = .ok after ∧
      after.items = self.items ++ [v] := by
  obtain ⟨back, pushed, same⟩ := self.back.pushFront_ok (ε := ε) v
    (by simp only [items, length_append, length_reverse] at small; omega)
  refine ⟨{ self with back }, ?_, ?_⟩
  · unfold enqueue
    rw [pushed]
    rfl
  · simp [items, same]

theorem moved_ok (pending : List α) (front : LinkedList α)
    (small : pending.length + front.items.length < 2 ^ 31) :
    ∃ after : LinkedList α, (moved pending front : Outcome ε _) = .ok after ∧
      after.items = pending.reverse ++ front.items := by
  induction pending generalizing front with
  | nil => exact ⟨front, rfl, rfl⟩
  | cons v pending ih =>
    rw [length_cons] at small
    obtain ⟨longer, pushed, same⟩ := front.pushFront_ok (ε := ε) v (by omega)
    obtain ⟨after, rest, final⟩ := ih longer (by rw [same, length_cons]; omega)
    refine ⟨after, ?_, ?_⟩
    · rw [moved, pushed]
      exact rest
    · simp [final, same]

end Queue

end FoundationLang.Standard
