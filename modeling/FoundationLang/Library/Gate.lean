/-
**Bounded gates with a queue.**

A gate lets a bounded number of holders in. A request that finds it full waits, in a queue with a
bound of its own, and a holder that leaves hands its place to the first that waits.

* `Gate` — a gate; its bounds are fields, so that a gate that breaks them cannot be built.
* `enter`, `queue`, `leave`, `handOver`, `withdraw` — what can happen at a gate.
* `InOrder` — of the requests that came to wait, those that were not withdrawn were served in the
  order in which they came, and the rest waits in that order.
-/

import Mathlib.Data.Finset.Card
import Mathlib.Data.List.Nodup

namespace FoundationLang.Library

open List

/-- **A gate.** Whoever waits does so because the gate is full. -/
structure Gate (α : Type) where
  capacity : ℕ
  limit : ℕ
  holders : Finset α
  waiting : List α
  few : holders.card ≤ capacity
  short : waiting.length ≤ limit
  full : waiting ≠ [] → holders.card = capacity
  distinct : waiting.Nodup
  apart : ∀ request ∈ waiting, request ∉ holders

namespace Gate

variable {α : Type} [DecidableEq α]

/-- A gate that nobody has entered. -/
def vacant (capacity limit : ℕ) : Gate α where
  capacity := capacity
  limit := limit
  holders := ∅
  waiting := []
  few := Nat.zero_le _
  short := Nat.zero_le _
  full := fun waits => absurd rfl waits
  distinct := nodup_nil
  apart := fun _ member => absurd member not_mem_nil

omit [DecidableEq α] in
theorem waiting_eq_nil (gate : Gate α) (room : gate.holders.card < gate.capacity) :
    gate.waiting = [] := by
  by_contra waits
  exact absurd (gate.full waits) (Nat.ne_of_lt room)

/-- A request finds room. -/
def enter (gate : Gate α) (request : α) (fresh : request ∉ gate.holders)
    (room : gate.holders.card < gate.capacity) : Gate α where
  capacity := gate.capacity
  limit := gate.limit
  holders := insert request gate.holders
  waiting := []
  few := by
    rw [Finset.card_insert_of_notMem fresh]
    exact room
  short := Nat.zero_le _
  full := fun waits => absurd rfl waits
  distinct := nodup_nil
  apart := fun _ member => absurd member not_mem_nil

/-- A request comes to wait at a full gate. -/
def queue (gate : Gate α) (request : α) (outside : request ∉ gate.holders)
    (fresh : request ∉ gate.waiting) (full : gate.holders.card = gate.capacity)
    (room : gate.waiting.length < gate.limit) : Gate α where
  capacity := gate.capacity
  limit := gate.limit
  holders := gate.holders
  waiting := gate.waiting ++ [request]
  few := gate.few
  short := by
    rw [length_append, length_singleton]
    exact room
  full := fun _ => full
  distinct := nodup_append.2 ⟨gate.distinct, nodup_singleton _, by
    intro waiter member last same equal
    rw [mem_singleton] at same
    exact fresh (same ▸ equal ▸ member)⟩
  apart := by
    intro waiter member
    rcases mem_append.1 member with waits | last
    · exact gate.apart waiter waits
    · rw [mem_singleton.1 last]
      exact outside

/-- A holder leaves, and nobody waits. -/
def leave (gate : Gate α) (holder : α) (nobody : gate.waiting = []) : Gate α where
  capacity := gate.capacity
  limit := gate.limit
  holders := gate.holders.erase holder
  waiting := gate.waiting
  few := le_trans (Finset.card_erase_le) gate.few
  short := gate.short
  full := fun waits => absurd nobody waits
  distinct := gate.distinct
  apart := fun waiter member kept => gate.apart waiter member (Finset.mem_of_mem_erase kept)

theorem card_handOver (gate : Gate α) {holder x : α} {rest : List α}
    (inside : holder ∈ gate.holders) (waiting : gate.waiting = x :: rest) :
    (insert x (gate.holders.erase holder)).card = gate.holders.card := by
  have outside : x ∉ gate.holders.erase holder := fun mem =>
    gate.apart x (waiting ▸ mem_cons_self) (Finset.mem_of_mem_erase mem)
  rw [Finset.card_insert_of_notMem outside, Finset.card_erase_add_one inside]

/-- A holder that leaves hands its place to the first request that waits. -/
def handOver (gate : Gate α) (holder first : α) (rest : List α) (inside : holder ∈ gate.holders)
    (waiting : gate.waiting = first :: rest) : Gate α where
  capacity := gate.capacity
  limit := gate.limit
  holders := insert first (gate.holders.erase holder)
  waiting := rest
  few := by
    rw [gate.card_handOver inside waiting]
    exact gate.few
  short := by
    have short := gate.short
    rw [waiting, length_cons] at short
    exact Nat.le_of_succ_le short
  full := by
    intro _
    rw [gate.card_handOver inside waiting]
    exact gate.full (by rw [waiting]; exact cons_ne_nil _ _)
  distinct := (nodup_cons.1 (waiting ▸ gate.distinct)).2
  apart := by
    intro waiter member inserted
    have distinct := nodup_cons.1 (waiting ▸ gate.distinct)
    rcases Finset.mem_insert.1 inserted with same | kept
    · exact distinct.1 (same ▸ member)
    · exact gate.apart waiter (waiting ▸ mem_cons_of_mem _ member)
        (Finset.mem_of_mem_erase kept)

/-- A request that waits gives up. -/
def withdraw (gate : Gate α) (request : α) : Gate α where
  capacity := gate.capacity
  limit := gate.limit
  holders := gate.holders
  waiting := gate.waiting.erase request
  few := gate.few
  short := le_trans (length_erase_le) gate.short
  full := by
    intro waits
    refine gate.full fun none => waits ?_
    rw [none, erase_nil]
  distinct := gate.distinct.erase request
  apart := fun waiter member => gate.apart waiter (mem_of_mem_erase member)

end Gate

/-! ### First come, first served -/

/-- **Requests are served in the order in which they came.** -/
structure InOrder {α : Type} [DecidableEq α] (arrived withdrawn served waiting : List α) : Prop where
  once : arrived.Nodup
  order : arrived.filter (· ∉ withdrawn) = served ++ waiting

namespace InOrder

variable {α : Type} [DecidableEq α] {arrived withdrawn served waiting : List α} {request : α}

theorem empty : InOrder ([] : List α) [] [] [] :=
  ⟨nodup_nil, rfl⟩

theorem mem_arrived (ordered : InOrder arrived withdrawn served waiting)
    (mem : request ∈ served ++ waiting) : request ∈ arrived := by
  rw [← ordered.order] at mem
  exact (mem_filter.1 mem).1

theorem arrive (ordered : InOrder arrived withdrawn served waiting)
    (fresh : request ∉ arrived) (kept : request ∉ withdrawn) :
    InOrder (arrived ++ [request]) withdrawn served (waiting ++ [request]) where
  once := nodup_append.2 ⟨ordered.once, nodup_singleton _, by
    intro arrival mem last same equal
    rw [mem_singleton] at same
    exact fresh (same ▸ equal ▸ mem)⟩
  order := by
    rw [filter_append, ordered.order, append_assoc]
    simp [kept]

theorem serve (ordered : InOrder arrived withdrawn served (request :: waiting)) :
    InOrder arrived withdrawn (served ++ [request]) waiting where
  once := ordered.once
  order := by
    rw [ordered.order, append_assoc, singleton_append]

theorem withdraw (ordered : InOrder arrived withdrawn served waiting)
    (waits : request ∈ waiting) :
    InOrder arrived (withdrawn ++ [request]) served (waiting.erase request) where
  once := ordered.once
  order := by
    have once : (served ++ waiting).Nodup := ordered.order ▸ ordered.once.filter _
    have unserved : request ∉ served := fun mem =>
      (nodup_append.1 once).2.2 request mem request waits rfl
    calc arrived.filter (· ∉ withdrawn ++ [request])
        = (arrived.filter (· ∉ withdrawn)).filter (· != request) := by
          rw [filter_filter]
          refine filter_congr fun arrival _ => ?_
          by_cases same : arrival = request <;> simp [same]
      _ = (served ++ waiting).erase request := by
          rw [ordered.order, once.erase_eq_filter]
      _ = served ++ waiting.erase request := erase_append_right _ unserved

end InOrder

end FoundationLang.Library
