/-
**A ring is a bounded queue.**

Any calls of a ring's functions one after the other, against the same calls of a bounded queue.
-/

import FoundationLang.Standard.Ring

namespace FoundationLang.Standard.Ring

open Library Outcome List

variable {T : Type}

/-! ### Calls -/

/-- A call of a function of the ring. -/
inductive Operation (T : Type)
  | push (value : T)
  | pop
  | peek
  | drain
  | reset
  | measure

/-- What a call returns. With `Peek` go the calls of its operation, with `Reset` the values that it
discards, and `Cap`, `Len`, `Space` and `IsEmpty` are asked together. -/
inductive Reply (T : Type)
  | pushed (result : Except (PushError T) Unit)
  | popped (value : Option T)
  | peeked (found : Bool) (calls : List T)
  | drained (values : List T)
  | discarded (values : List T)
  | measured (capacity : I32) (length space : ℕ) (isEmpty : Bool)

/-- One call of a function of the ring. -/
def Operation.call (ring : Buffer T) : Operation T → Outcome Empty (Reply T × Buffer T)
  | .push value => do
    let (result, after) ← ring.push value
    return (.pushed result, after)
  | .pop => do
    let (value, after) ← ring.pop
    return (.popped value, after)
  | .peek => do
    let (seen, after) ← ring.peek
    return (.peeked seen.1 seen.2, after)
  | .drain => do
    let (values, after) ← ring.drain .newQueue
    return (.drained values.items, after)
  | .reset => do
    let (values, after) ← ring.reset
    return (.discarded values, after)
  | .measure => do
    return (.measured ring.cap (← ring.len) ring.space (← ring.isEmpty), ring)

/-- The calls on a ring; `asked` — the same on a queue. -/
def run : List (Operation T) → Buffer T → Outcome Empty (List (Reply T) × Buffer T)
  | [], ring => .ok ([], ring)
  | operation :: rest, ring => do
    let (reply, ring) ← operation.call ring
    let (replies, ring) ← run rest ring
    return (reply :: replies, ring)

/-! ### The same calls on a queue -/

variable {capacity : I32}

/-- The queue that a ring of this capacity should be. -/
abbrev Bounded (T : Type) (capacity : I32) : Type :=
  BoundedQueue T capacity.val.toNat

/-- A call on a bounded queue. -/
def Operation.ask (queue : Bounded T capacity) : Operation T → Reply T × Bounded T capacity
  | .push value =>
    match queue.push value with
    | .ok after => (.pushed (.ok ()), after)
    | .error value => (.pushed (.error (.full value)), queue)
  | .pop => (.popped queue.pop.1, queue.pop.2)
  | .peek => (.peeked queue.items.head?.isSome queue.items.head?.toList, queue)
  | .drain => (.drained queue.takeAll.1, queue.takeAll.2)
  | .reset => (.discarded queue.takeAll.1, queue.takeAll.2)
  | .measure => (.measured capacity queue.items.length (capacity.val.toNat - queue.items.length)
      (queue.items.length == 0), queue)

/-- Calls on a bounded queue one after the other. -/
def asked : List (Operation T) → Bounded T capacity → List (Reply T) × Bounded T capacity
  | [], queue => ([], queue)
  | operation :: rest, queue =>
    ((operation.ask queue).1 :: (asked rest (operation.ask queue).2).1,
      (asked rest (operation.ask queue).2).2)

/-- The values that come in: those that were pushed and not given back. -/
def entered : List (Operation T) → List (Reply T) → List T
  | .push value :: operations, .pushed (.ok ()) :: replies => value :: entered operations replies
  | _ :: operations, _ :: replies => entered operations replies
  | _, _ => []

/-- The values that a reply takes out. -/
def Reply.left : Reply T → List T
  | .popped value => value.toList
  | .drained values => values
  | .discarded values => values
  | _ => []

theorem ask_room {q t : Bounded T capacity} {v : T}
    (pushed : q.push v = .ok t) :
    (Operation.push v).ask q = (.pushed (.ok ()), t) := by
  rw [Operation.ask, pushed]

theorem ask_full {q : Bounded T capacity} {v : T}
    (full : ¬q.items.length < capacity.val.toNat) :
    (Operation.push v).ask q = (.pushed (.error (.full v)), q) := by
  rw [Operation.ask, q.push_full v full]

/-! ### The ring against the queue -/

theorem call_represents {ring : Buffer T} {q : Bounded T capacity}
    (same : ring.capacity = capacity) (rep : Represents ring q.items)
    (op : Operation T) :
    ∃ after, op.call ring = .ok ((op.ask q).1, after) ∧
      after.capacity = capacity ∧ Represents after (op.ask q).2.items := by
  have small := capacity.property.2
  have bound := q.bound
  have space := rep.space_eq
  cases op with
  | push v =>
    by_cases room : q.items.length < capacity.val.toNat
    · obtain ⟨after, pushed, same', rep⟩ := push_represents rep v
        (by rw [same]; omega)
      obtain ⟨queue', enters, xs⟩ := q.push_room v room
      refine ⟨after, ?_, same'.trans same, ?_⟩
      · rw [ask_room enters, Operation.call, pushed]
        rfl
      · rw [ask_room enters, xs]
        exact rep
    · refine ⟨ring, ?_, same, ?_⟩
      · rw [ask_full room, Operation.call,
          push_full rep v (by rw [same] at space ⊢; omega)]
        rfl
      · rw [ask_full room]
        exact rep
  | pop =>
    obtain ⟨after, popped, same', rep⟩ := pop_represents rep
    refine ⟨after, ?_, same'.trans same, rep⟩
    rw [Operation.call, popped]
    rfl
  | peek =>
    obtain ⟨after, peeked, same', rep⟩ := peek_represents rep
    refine ⟨after, ?_, same'.trans same, rep⟩
    rw [Operation.call, peeked]
    rfl
  | drain =>
    obtain ⟨values, after, drained, xs, same', rep⟩ := drain_represents rep
      .newQueue (by rw [Queue.newQueue_items, length_nil]; omega)
    refine ⟨after, ?_, same'.trans same, rep⟩
    rw [Operation.call, drained]
    change Except.ok (Reply.drained values.items, after) = _
    rw [xs]
    rfl
  | reset =>
    obtain ⟨after, reset, same', rep⟩ := reset_represents rep
    refine ⟨after, ?_, same'.trans same, rep⟩
    rw [Operation.call, reset]
    rfl
  | measure =>
    refine ⟨ring, ?_, same, rep⟩
    have room : ring.space = capacity.val.toNat - q.items.length := by
      rw [same] at space
      omega
    rw [Operation.call, Operation.ask, Buffer.isEmpty, Buffer.cap, rep.len_ok, same, room]
    rfl

/-- The replies are those of the queue, and the ring holds what the queue holds. -/
theorem run_represents {ring : Buffer T} {q : Bounded T capacity}
    (same : ring.capacity = capacity) (rep : Represents ring q.items)
    (operations : List (Operation T)) :
    ∃ after, run operations ring = .ok ((asked operations q).1, after) ∧
      after.capacity = capacity ∧ Represents after (asked operations q).2.items := by
  induction operations generalizing ring q with
  | nil => exact ⟨ring, rfl, same, rep⟩
  | cons operation rest ih =>
    obtain ⟨m, called, same', rep⟩ := call_represents same rep operation
    obtain ⟨after, ran, same'', rep⟩ := ih same' rep
    refine ⟨after, ?_, same'', rep⟩
    rw [run, called]
    change (run rest m >>= _) = _
    rw [ran]
    rfl

/-! ### What the replies show -/

/-- A call lets values in and out. -/
theorem ask_passes {s queue : Bounded T capacity} {came went : List T}
    (passes : s.Passes came went queue) (op : Operation T) :
    s.Passes (came ++ entered [op] [(op.ask queue).1])
      (went ++ (op.ask queue).1.left) (op.ask queue).2 := by
  cases op with
  | push v =>
    by_cases room : queue.items.length < capacity.val.toNat
    · obtain ⟨after, pushed, _⟩ := queue.push_room v room
      rw [ask_room pushed]
      change s.Passes (came ++ [v]) (went ++ []) after
      rw [append_nil]
      exact passes.enter pushed
    · rw [ask_full room]
      change s.Passes (came ++ []) (went ++ []) queue
      rwa [append_nil, append_nil]
  | pop =>
    change s.Passes (came ++ []) (went ++ queue.pop.1.toList) queue.pop.2
    rw [append_nil]
    rcases oldest : queue.pop.1 with _ | _
    · have same : queue.pop.2 = queue := by
        apply BoundedQueue.ext
        change queue.items.tail = queue.items
        rw [List.head?_eq_none_iff.mp oldest, tail_nil]
      rw [same, Option.toList_none, append_nil]
      exact passes
    · exact passes.leave oldest
  | peek | measure =>
    change s.Passes (came ++ []) (went ++ []) queue
    rwa [append_nil, append_nil]
  | drain | reset =>
    change s.Passes (came ++ []) (went ++ queue.items) .empty
    rw [append_nil]
    exact passes.takeAll

theorem entered_cons (op : Operation T) (rest : List (Operation T)) (reply : Reply T)
    (replies : List (Reply T)) :
    entered (op :: rest) (reply :: replies) =
      entered [op] [reply] ++ entered rest replies := by
  cases op with
  | push =>
    rcases reply with (_ | _) | _ | _ | _ | _ | _ <;> rfl
  | _ => rfl

/-- What the replies show of the values that come in and go out. -/
theorem asked_passes {s q : Bounded T capacity} {came went : List T}
    (passes : s.Passes came went q) (operations : List (Operation T)) :
    s.Passes (came ++ entered operations (asked operations q).1)
      (went ++ (asked operations q).1.flatMap Reply.left) (asked operations q).2 := by
  induction operations generalizing q came went with
  | nil =>
    change s.Passes (came ++ []) (went ++ []) q
    rwa [append_nil, append_nil]
  | cons operation rest ih =>
    have next := ih (ask_passes passes operation)
    rw [append_assoc, append_assoc] at next
    rw [asked, entered_cons, flatMap_cons]
    exact next

/-- **A ring behaves as a bounded queue.** A capacity below one is refused. Of any other the ring
answers any calls as the queue does, without a panic: what came in goes out in the same order or is
still there, the ring counts the values it holds, none of its nodes is lost, and a full ring gives a
value back and stays as it is. -/
theorem ring_queue (capacity : I32) :
    (capacity.val < 1 → (newBuffer capacity : Outcome _ (Buffer T)) = err .zeroCapacity) ∧
    (1 ≤ capacity.val → ∃ ring : Buffer T, newBuffer capacity = .ok ring ∧
      ∀ operations : List (Operation T),
        ∃ (replies : List (Reply T)) (after : Buffer T) (queue : Bounded T capacity),
          run operations ring = .ok (replies, after) ∧
          asked operations .empty = (replies, queue) ∧
          entered operations replies = replies.flatMap Reply.left ++ queue.items ∧
          after.front.slots ++ after.back.slots.reverse = queue.items.map Slot.holding ∧
          after.len = .ok queue.items.length ∧
          (queue.items.length : ℤ) ≤ capacity.val ∧
          (after.front.len + after.back.len + after.free.len : ℤ) = capacity.val ∧
          after.front.len = after.front.slots.length ∧ after.back.len = after.back.slots.length ∧
          after.free.len = after.free.slots.length ∧
          ((queue.items.length : ℤ) = capacity.val →
            ∀ value, after.push value = .ok (.error (.full value), after))) := by
  refine ⟨newBuffer_refuses, fun large => ?_⟩
  have made : ∃ ring : Buffer T, newBuffer capacity = .ok ring ∧ ring.capacity = capacity ∧
      Represents ring (BoundedQueue.empty : Bounded T capacity).items := newBuffer_ok (by omega)
  obtain ⟨ring, built, same, represents⟩ := made
  refine ⟨ring, built, fun operations => ?_⟩
  obtain ⟨after, ran, same', represents⟩ := run_represents same represents operations
  have bound := (asked operations (BoundedQueue.empty : Bounded T capacity)).2.bound
  have passes : (BoundedQueue.empty : Bounded T capacity).Passes [] [] .empty := .rest
  have conserved := (asked_passes passes operations).conserved
  refine ⟨_, after, (asked operations .empty).2, ran, rfl, conserved, represents.order,
    represents.len_ok, by omega, ?_, after.front.counted, after.back.counted, after.free.counted,
    fun full value => push_full represents value (by rw [same']; exact full)⟩
  have nodes := represents.nodes
  rw [same'] at nodes
  unfold Buffer.stored at nodes
  unfold SlotList.len
  rw [after.front.counted, after.back.counted, after.free.counted]
  exact_mod_cast nodes

end FoundationLang.Standard.Ring
