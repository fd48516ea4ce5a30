/-
**The two caches agree.**

A typed cache whose values are byte sequences, copied as the byte cache copies them, and the byte
cache, both asked the same at the same times.

* `Byte.State.of`, `Byte.Entry.of` — the state of the byte cache for one of the typed cache.
-/

import FoundationLang.Caching.ByteStore

namespace FoundationLang.Caching

open Library Outcome Standard

namespace Byte

/-- The same entry in the byte cache. -/
def Entry.of (entry : Caching.Entry Bytes) : Entry :=
  ⟨entry.key, entry.value, entry.written, entry.ttl, entry.sequence⟩

/-- The same state of the byte cache. -/
def State.of (current : Caching.State Bytes) : State :=
  ⟨current.entries.map Entry.of, current.defaultTTL, current.maxEntries, current.nextSequence⟩

/-- The same request to the byte cache. -/
def Operation.of : Caching.Operation Bytes → Operation
  | .get key => .get key
  | .set ⟨key, value, ttl⟩ => .set ⟨key, value, ttl⟩
  | .invalidate key => .delete key
  | .len => .len

/-- The same reply of the byte cache. -/
def Response.of : Caching.Response Bytes → Response
  | .done => .done
  | .maybeValue value => .maybeValue value
  | .length value => .length value

end Byte

open Byte (copyBytes)

/-! ### One function after the other -/

/-- **A loop of the one task is the loop of the other one**, and what follows is the same if it is
the same for what the loop leaves. -/
theorem sweep_of {σ α β : Type} {visit : σ → Entry Bytes → Outcome Empty (σ × Bool)}
    {visit' : σ → Byte.Entry → Outcome Empty (σ × Bool)}
    {next : σ × LinkedList (Entry Bytes) → Outcome Empty α}
    {next' : σ × LinkedList Byte.Entry → Outcome Empty β} {convert : α → β}
    (same : ∀ memory item, visit' memory (.of item) = visit memory item) (s : State Bytes)
    (memory : σ)
    (later : ∀ memory after,
      next' (memory, after.map Byte.Entry.of) = (next (memory, after)).map convert) :
    (sweep visit' (Byte.State.of s).entries.items memory .newList >>= next') =
      (sweep visit s.entries.items memory .newList >>= next).map convert := by
  have swept := sweep_map Byte.Entry.of visit visit' s.entries.items
    (fun memory item _ => same memory item) memory .newList
  change (sweep visit' (s.entries.items.map Byte.Entry.of) memory
    ((LinkedList.newList : LinkedList (Entry Bytes)).map Byte.Entry.of) >>= next') = _
  rw [swept]
  rcases sweep visit s.entries.items memory .newList with _ | ⟨left, after⟩
  · rfl
  · exact later left after

theorem bind_map {α β α' β' : Type} {x : Outcome Empty α} {x' : Outcome Empty α'}
    {next : α → Outcome Empty β} {next' : α' → Outcome Empty β'} {convert : α → α'}
    {convert' : β → β'} (same : x' = x.map convert)
    (later : ∀ v, next' (convert v) = (next v).map convert') :
    (x' >>= next') = (x >>= next).map convert' := by
  rw [same]
  rcases x with _ | v
  · rfl
  · exact later v

section

variable (s : State Bytes)
include s

theorem purgeExpired_agree (now : MonotonicInstant) :
    Byte.purgeExpired (.of s) now = (purgeExpired s now).map .of :=
  sweep_of (fun _ _ => rfl) s () fun _ _ => rfl

theorem removeKey_agree (key : Text) :
    Byte.removeKey (.of s) key = (removeKey s key).map .of :=
  sweep_of (fun _ _ => rfl) s () fun _ _ => rfl

theorem oldestSequence_agree :
    Byte.oldestSequence (.of s) =
      (oldestSequence s).map fun (oldest, after) => (oldest, .of after) :=
  sweep_of (fun _ _ => rfl) s (0, false) fun _ _ => rfl

theorem evictOldest_agree :
    Byte.evictOldest (.of s) = (evictOldest s).map .of := by
  refine bind_map (oldestSequence_agree s) ?_
  rintro ⟨_, m⟩
  exact sweep_of (fun _ _ => rfl) m false fun _ _ => rfl

theorem makeRoom_agree :
    Byte.makeRoom (.of s) = (makeRoom s).map .of := by
  have length : (Byte.State.of s).entries.len = s.entries.len := List.length_map ..
  have bound : (Byte.State.of s).maxEntries = s.maxEntries := rfl
  unfold Byte.makeRoom makeRoom
  rw [length, bound]
  split
  · exact evictOldest_agree s
  · rfl

theorem storeValue_agree (key : Text) (v : Bytes) (ttl : ℤ)
    (out : MonotonicInstant) :
    Byte.storeValue (.of s) key v ttl out =
      (storeValue s key v ttl out).map .of := by
  refine bind_map (removeKey_agree s key) fun removed => ?_
  refine bind_map (makeRoom_agree removed) fun m => ?_
  change (checked (m.nextSequence + 1) >>= _) = _
  rcases checked (m.nextSequence + 1) with _ | _
  · rfl
  · change ((m.entries.map Byte.Entry.of).pushFront _ >>= _) =
      ((m.entries.pushFront _ >>= _ : Outcome Empty _)).map _
    exact bind_map (LinkedList.map_pushFront Byte.Entry.of m.entries
      ⟨key, v, out, ttl, m.nextSequence⟩) fun _ => rfl

theorem getValue_agree (copies : s.cloneValue = copyBytes)
    (key : Text) :
    Byte.getValue (.of s) key =
      (getValue s key).map fun (v, after) => (v, .of after) := by
  have looked : ∀ result item, Byte.look key result (.of item) = look s key result item := by
    intro result item
    unfold look
    rw [copies]
    rfl
  exact sweep_of (fun result item => by rw [looked]) s none fun _ _ => rfl

end

/-! ### Requests -/

theorem answer_agree (s : State Bytes) (copies : s.cloneValue = copyBytes)
    (out : MonotonicInstant) (op : Operation Bytes) :
    Byte.answer (.of s) out (.of op) =
      (answer s out op).map fun (reply, after) => (.of reply, .of after) := by
  cases op with
  | get key => exact bind_map (getValue_agree s copies key) fun _ => rfl
  | set payload =>
    exact bind_map (storeValue_agree s payload.key payload.value _ out) fun _ => rfl
  | invalidate key => exact bind_map (removeKey_agree s key) fun _ => rfl
  | len =>
    have length : (Byte.State.of s).entries.len = s.entries.len := List.length_map ..
    change Except.ok (Byte.Response.length (Byte.State.of s).entries.len, _) = _
    rw [length]
    rfl

/-- **One request.** -/
theorem apply_agree (s : State Bytes) (copies : s.cloneValue = copyBytes)
    (now out : MonotonicInstant) (op : Operation Bytes) :
    Byte.apply (.of s) now out (.of op) =
      (apply s now out op).map fun (reply, after) => (.of reply, .of after) := by
  obtain ⟨entries, purged, _⟩ := purgeExpired_ok s now
  have purged' := purgeExpired_agree s now
  rw [purged] at purged'
  unfold Byte.apply apply
  rw [purged, purged']
  exact answer_agree { s with entries } copies out op

/-! ### Clients -/

/-- The same call to the byte cache, at the same time. -/
def Timed.toBytes (call : Timed (Operation Bytes)) : Timed Byte.Operation :=
  ⟨.of call.operation, call.now, call.written⟩

/-- The same answer of the byte cache. -/
def answerOf (reply : Except Error (Response Bytes)) : Except Error Byte.Response :=
  reply.map Byte.Response.of

theorem request_agree (op : Operation Bytes) :
    Byte.request (.of op) = (request op).map .of := by
  rcases op with _ | ⟨key, v, ttl⟩ | _ | _
  · rfl
  · change Byte.setRequest key v ttl = (setRequest key v ttl).map .of
    unfold Byte.setRequest setRequest
    split <;> rfl
  · rfl
  · rfl

theorem run_agree (s : State Bytes) (copies : s.cloneValue = copyBytes)
    (calls : List (Timed (Operation Bytes))) :
    Byte.run (.of s) (calls.map Timed.toBytes) =
      (run s calls).map (List.map answerOf) := by
  induction calls generalizing s with
  | nil => rfl
  | cons call rest ih =>
    obtain ⟨operation, now, written⟩ := call
    rw [List.map_cons, run, Timed.toBytes, Byte.run, request_agree]
    rcases request operation with _ | operation
    · exact bind_map (ih s copies) fun _ => rfl
    · have applied := apply_agree s copies now written operation
      dsimp only [Except.map]
      rw [applied]
      rcases same : apply s now written operation with _ | ⟨_, t⟩
      · rfl
      · change (Byte.run (.of t) (rest.map Timed.toBytes) >>= _) =
          ((run t rest >>= _ : Outcome Empty _)).map _
        exact bind_map (ih t ((congrArg Prod.fst (apply_settings same)).trans copies)) fun _ => rfl

/-- **The two caches cannot be told apart.** For every policy, and for all calls at all times, the
typed cache of byte sequences and the byte cache give the same answers: the same refusal to be built,
the same errors, the same values and counts, and a panic at the same call. -/
theorem caches_agree (policy : Policy) (calls : List (Timed (Operation Bytes))) :
    Byte.session policy (calls.map Timed.toBytes) =
      (session copyBytes policy calls).map fun answers =>
        answers.map (List.map answerOf) := by
  unfold Byte.session session Byte.newDistributedWith newWith
  split
  · rfl
  · split
    · rfl
    · exact congrArg Except.ok (run_agree (newCache copyBytes _ _) rfl calls)

end FoundationLang.Caching
