/-
**Bounded queues.**

A queue holds at most as many values as its capacity. A value that finds it full is given back; the
values that came in go out in the order in which they came.

* `push`, `pop`, `takeAll` — what a queue does.
* `Passes` — what comes in and goes out in a run, with the rule that nothing is lost, doubled or
  overtaken (`Passes.conserved`).
-/

import Mathlib.Data.List.Basic

namespace FoundationLang.Library

open List

/-- **A queue with a bound**, the oldest value first. -/
structure BoundedQueue (α : Type) (capacity : ℕ) where
  items : List α
  bound : items.length ≤ capacity

namespace BoundedQueue

variable {α : Type} {capacity : ℕ}

/-- No values. -/
def empty : BoundedQueue α capacity :=
  ⟨[], Nat.zero_le _⟩

/-- A value comes in, unless the queue is full. -/
def push (queue : BoundedQueue α capacity) (value : α) : Except α (BoundedQueue α capacity) :=
  if room : queue.items.length < capacity then
    .ok ⟨queue.items ++ [value], by rw [length_append]; exact room⟩
  else .error value

/-- The oldest value goes out. -/
def pop (queue : BoundedQueue α capacity) : Option α × BoundedQueue α capacity :=
  (queue.items.head?, ⟨queue.items.tail, by have := queue.bound; rw [length_tail]; omega⟩)

/-- All values go out. -/
def takeAll (queue : BoundedQueue α capacity) : List α × BoundedQueue α capacity :=
  (queue.items, empty)

@[ext]
theorem ext {x second : BoundedQueue α capacity} (same : x.items = second.items) :
    x = second := by
  obtain ⟨_, _⟩ := x
  obtain ⟨_, _⟩ := second
  congr

theorem push_room (q : BoundedQueue α capacity) (v : α)
    (room : q.items.length < capacity) :
    ∃ t, q.push v = .ok t ∧ t.items = q.items ++ [v] := by
  unfold push
  rw [dif_pos room]
  exact ⟨_, rfl, rfl⟩

theorem push_full (q : BoundedQueue α capacity) (value : α)
    (full : ¬q.items.length < capacity) : q.push value = .error value := by
  unfold push
  rw [dif_neg full]

theorem push_eq_ok {q t : BoundedQueue α capacity} {v : α}
    (pushed : q.push v = .ok t) : t.items = q.items ++ [v] := by
  by_cases room : q.items.length < capacity
  · obtain ⟨_, pushed', xs⟩ := q.push_room v room
    rw [pushed] at pushed'
    obtain rfl := Except.ok.inj pushed'
    exact xs
  · rw [q.push_full v room] at pushed
    cases pushed

/-! ### What passes through a queue -/

/-- **A run of a queue**, with the values that came in and those that went out. -/
inductive Passes (before : BoundedQueue α capacity) :
    List α → List α → BoundedQueue α capacity → Prop
  | rest : Passes before [] [] before
  | enter {entered left : List α} {middle after : BoundedQueue α capacity} {value : α}
    (earlier : Passes before entered left middle) (pushed : middle.push value = .ok after) :
    Passes before (entered ++ [value]) left after
  | leave {entered left : List α} {middle : BoundedQueue α capacity} {value : α}
    (earlier : Passes before entered left middle) (oldest : middle.pop.1 = some value) :
    Passes before entered (left ++ [value]) middle.pop.2

variable {s m t : BoundedQueue α capacity} {entered left : List α}

/-- **Nothing is lost, doubled or overtaken.** What went out and what is left is what there was and
what came in, in the same order. -/
theorem Passes.conserved (passes : Passes s entered left t) :
    s.items ++ entered = left ++ t.items := by
  induction passes with
  | rest => rw [append_nil, nil_append]
  | enter earlier pushed ih =>
    rw [push_eq_ok pushed, ← append_assoc, ih, append_assoc]
  | @leave entered left m v earlier oldest ih =>
    obtain ⟨rest, xs⟩ := List.head?_eq_some_iff.mp oldest
    have last : m.pop.2.items = rest := by
      change m.items.tail = rest
      rw [xs, tail_cons]
    rw [ih, last, xs, append_assoc, singleton_append]

/-- All values go out one after the other. -/
theorem Passes.takeAll (passes : Passes s entered left m) :
    Passes s entered (left ++ m.items) empty := by
  obtain ⟨xs, bound⟩ := m
  induction xs generalizing left with
  | nil =>
    rw [append_nil]
    exact passes
  | cons v xs ih =>
    have next := ih (Nat.le_of_succ_le bound) (passes.leave rfl)
    rwa [append_assoc, singleton_append] at next

end BoundedQueue

end FoundationLang.Library
