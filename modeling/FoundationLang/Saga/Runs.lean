/-
**Work that runs once, in `foundation.saga`.**

`RunOnce` asks the store for a key, runs the operation, and records the key if the operation has
succeeded. `RunOnceReserved` reserves the key first, and completes or releases it at the end. The input
of a failed operation goes to the dead letters.
-/

import FoundationLang.Saga.Store

namespace FoundationLang.Saga

open Library Outcome Standard List

/-- The store did not answer; the input is not lost. -/
structure StoreAccessFailure (T : Type) where
  key : Text
  input : T
  error : Error

/-- The store did not take the key. -/
structure StoreWriteFailure where
  key : Text
  error : Error

/-- The input of a failed operation, and its error. -/
structure DeadLetter (T E : Type) where
  key : Text
  input : T
  error : E

/-- The queue did not take the letter. -/
structure DeadLetterPushFailure (T E : Type) where
  error : Error
  letter : DeadLetter T E

/-- The store did not take the key back; the letter is not lost. -/
structure ReleaseFailure (T E : Type) where
  error : Error
  letter : DeadLetter T E

/-- The errors of a run. -/
inductive RunError (T E : Type)
  | duplicate
  | store (failure : StoreAccessFailure T)
  | operationQueued
  | record (failure : StoreWriteFailure)
  | complete (failure : StoreWriteFailure)
  | release (failure : ReleaseFailure T E)
  | deadLetter (failure : DeadLetterPushFailure T E)

/-- **`DeadLetterQueue`.** -/
structure DeadLetterQueue (Q T E : Type) where
  push : DeadLetter T E → Method Q (DeadLetterPushFailure T E) Unit

/-- The queue in memory. -/
def memoryDeadLetters (T E : Type) : DeadLetterQueue (LinkedList (DeadLetter T E)) T E where
  push value := fun self =>
    match self.pushFront value with
    | .error stop => .error stop self
    | .ok values => .ok () values

/-! ### The two functions -/

section Functions

variable {σ Q T E ε α : Type}

/-- A call of the store, beside the letters. -/
def onStore (call : Method σ ε α) : Method (σ × Q) ε α := fun (store, letters) =>
  match call store with
  | .ok value store => .ok value (store, letters)
  | .error stop store => .error stop (store, letters)

/-- A call of the letters, beside the store. -/
def onLetters (call : Method Q ε α) : Method (σ × Q) ε α := fun (store, letters) =>
  match call letters with
  | .ok value letters => .ok value (store, letters)
  | .error stop letters => .error stop (store, letters)

/-- What both functions do with the letter of a failed operation. -/
def queueLetter (letters : DeadLetterQueue Q T E) (letter : DeadLetter T E) :
    Method (σ × Q) (RunError T E) Unit := do
  (onLetters (letters.push letter)).mapErr .deadLetter
  throw (.err .operationQueued)

/-- Asks, runs and records. -/
def runOnce (store : Store σ) (letters : DeadLetterQueue Q T E) (key : Text) (input : T)
    (operation : T → Outcome E Unit) : Method (σ × Q) (RunError T E) Unit := do
  let seen ← (onStore (store.contains key)).mapErr fun error => .store ⟨key, input, error⟩
  if seen then throw (.err .duplicate)
  match operation input with
  | .ok () => (onStore (store.record key)).mapErr fun error => .record ⟨key, error⟩
  | .error (.err error) => queueLetter letters ⟨key, input, error⟩
  | .error (.panic reason) => throw (.panic reason)

/-- Runs and completes, or releases. -/
def runReserved (store : IdempotencyStore σ) (letters : DeadLetterQueue Q T E) (key : Text)
    (input : T) (operation : T → Outcome E Unit) : Method (σ × Q) (RunError T E) Unit := do
  match operation input with
  | .ok () => (onStore (store.complete key)).mapErr fun error => .complete ⟨key, error⟩
  | .error (.err error) => do
    (onStore (store.release key)).mapErr fun storeError =>
      .release ⟨storeError, ⟨key, input, error⟩⟩
    queueLetter letters ⟨key, input, error⟩
  | .error (.panic reason) => throw (.panic reason)

/-- Reserves the key first. -/
def runOnceReserved (store : IdempotencyStore σ) (letters : DeadLetterQueue Q T E) (key : Text)
    (input : T) (operation : T → Outcome E Unit) : Method (σ × Q) (RunError T E) Unit := do
  let reservation ← (onStore (store.reserve key)).mapErr fun error => .store ⟨key, input, error⟩
  match reservation with
  | .completed => throw (.err .duplicate)
  | .inProgress => throw (.err .duplicate)
  | .acquired => runReserved store letters key input operation

end Functions

/-! ### Calls that share a store -/

/-- Which of the two functions is called. -/
inductive Form
  | once
  | reserved
deriving DecidableEq, Repr

/-- How far a call is. -/
inductive Stage (T E : Type)
  | asking
  | chosen
  | running
  | returned (result : Except E Unit)
  | queueing (error : E)
  | done (result : Except (RunError T E) Unit)

/-- The store has let the call in, and has not been told how it ended. -/
def Stage.Active {T E : Type} : Stage T E → Prop
  | .chosen | .running | .returned _ => True
  | .asking | .queueing _ | .done _ => False

/-- A call of one of the functions. -/
structure Caller (T E : Type) where
  form : Form
  key : Text
  input : T
  stage : Stage T E

/-- What a call does next. The operation returns any result. -/
inductive Event (E : Type)
  | ask
  | start
  | finish (result : Except E Unit)
  | settle
  | queue

/-- A new call, or a step of one. -/
inductive Action (T E : Type)
  | call (form : Form) (key : Text) (input : T)
  | move (caller : ℕ) (event : Event E)

/-- The store, the letters and the calls. -/
structure Shared (Q T E : Type) where
  store : MemoryStore
  letters : Q
  callers : List (Caller T E)

section Sharing

variable {Q T E : Type}
variable {caller : Caller T E} {queue : DeadLetterQueue Q T E} {stage : Stage T E}
variable {store after : MemoryStore} {result : Except E Unit} {letters letters' : Q} {place : ℕ}

/-- The end of a call whose operation failed. -/
def Stage.ofPush : Except (DeadLetterPushFailure T E) Unit → Stage T E
  | .ok () => .done (.error .operationQueued)
  | .error failure => .done (.error (.deadLetter failure))

namespace Caller

variable (caller : Caller T E)

/-- What a call asks the store before the operation. -/
def question : Operation :=
  match caller.form with
  | .once => .contains caller.key
  | .reserved => .reserve caller.key

/-- How a call goes on after the answer. -/
def answered : Except Error Response → Stage T E
  | .error error => .done (.error (.store ⟨caller.key, caller.input, error⟩))
  | .ok (.flag seen) => if seen then .done (.error .duplicate) else .chosen
  | .ok (.reservation .completed) => .done (.error .duplicate)
  | .ok (.reservation .inProgress) => .done (.error .duplicate)
  | .ok _ => .chosen

/-- What a call tells the store after the operation. -/
def settlement (result : Except E Unit) : Option Operation :=
  match caller.form, result with
  | .once, .ok () => some (.record caller.key)
  | .once, .error _ => none
  | .reserved, .ok () => some (.complete caller.key)
  | .reserved, .error _ => some (.release caller.key)

/-- How a call goes on after the store has been told. -/
def settled (result : Except E Unit) (response : Except Error Response) : Stage T E :=
  match result, response with
  | .ok (), .ok _ => .done (.ok ())
  | .ok (), .error error =>
    match caller.form with
    | .once => .done (.error (.record ⟨caller.key, error⟩))
    | .reserved => .done (.error (.complete ⟨caller.key, error⟩))
  | .error error, .ok _ => .queueing error
  | .error error, .error storeError =>
    .done (.error (.release ⟨storeError, ⟨caller.key, caller.input, error⟩⟩))

/-- **One step of a call.** `none` stands for a step that the call is not at. -/
def advance (queue : DeadLetterQueue Q T E) (event : Event E) (store : MemoryStore) (letters : Q) :
    Except (Option Panic) (Stage T E × MemoryStore × Q) :=
  match caller.stage, event with
  | .asking, .ask => do
    let (response, store) ← ((perform memoryStore caller.question).attempt store).mapError some
    return (caller.answered response, store, letters)
  | .chosen, .start => .ok (.running, store, letters)
  | .running, .finish result => .ok (.returned result, store, letters)
  | .returned result, .settle =>
    match caller.settlement result with
    | some operation => do
      let (response, store) ← ((perform memoryStore operation).attempt store).mapError some
      return (caller.settled result response, store, letters)
    | none => .ok (caller.settled result (.ok .done), store, letters)
  | .queueing error, .queue => do
    let (result, letters) ← ((queue.push ⟨caller.key, caller.input, error⟩).attempt letters).mapError
      some
    return (Stage.ofPush result, store, letters)
  | _, _ => .error none

/-- The call has reserved its key and not given it back. -/
def Holds : Prop :=
  caller.form = .reserved ∧ caller.stage.Active

/-- The call has reported success. -/
def Succeeded : Prop :=
  caller.stage = .done (.ok ())

end Caller

/-- **The machine of all calls.** -/
def sharing (queue : DeadLetterQueue Q T E) (letters : Q) :
    Machine (Shared Q T E) (Action T E) (Option Panic) where
  initial := ⟨newMemoryStore, letters, []⟩
  Allowed _ _ := True
  step action state :=
    match action with
    | .call form key input =>
      .ok { state with callers := state.callers ++ [⟨form, key, input, .asking⟩] }
    | .move place event =>
      match state.callers[place]? with
      | none => .error none
      | some caller => do
        let (stage, store, letters) ← caller.advance queue event state.store state.letters
        return ⟨store, letters, state.callers.set place { caller with stage }⟩

instance (queue : DeadLetterQueue Q T E) (letters : Q) (state : Shared Q T E) (action : Action T E) :
    Decidable ((sharing queue letters).Allowed state action) :=
  inferInstanceAs (Decidable True)

/-! ### A call alone -/

/-- What a call does next, if its operation returns this. -/
def Stage.next (returns : Except E Unit) : Stage T E → Option (Event E)
  | .asking => some .ask
  | .chosen => some .start
  | .running => some (.finish returns)
  | .returned _ => some .settle
  | .queueing _ => some .queue
  | .done _ => none

/-- A caller that takes its steps with nobody in between. -/
def Caller.alone (queue : DeadLetterQueue Q T E) (operation : T → Except E Unit) :
    ℕ → Caller T E → MemoryStore → Q → Except (Option Panic) (Stage T E × MemoryStore × Q)
  | 0, caller, store, letters => .ok (caller.stage, store, letters)
  | steps + 1, caller, store, letters =>
    match caller.stage.next (operation caller.input) with
    | none => .ok (caller.stage, store, letters)
    | some event => do
      let (stage, store, letters) ← caller.advance queue event store letters
      Caller.alone queue operation steps { caller with stage } store letters

/-- What a function returns and leaves, as the end of a call. -/
def ending (call : Method (MemoryStore × Q) (RunError T E) Unit) (store : MemoryStore) (letters : Q) :
    Except (Option Panic) (Stage T E × MemoryStore × Q) :=
  ((call.attempt (store, letters)).mapError some).map fun (result, store, letters) =>
    (.done result, store, letters)

theorem attempt_onStore {σ ε α : Type} {call : Method σ ε α} (store : σ) (letters : Q) :
    (onStore call).attempt (store, letters) =
      (call.attempt store).map fun (result, store) => (result, store, letters) := by
  unfold Method.attempt onStore
  dsimp only
  rcases call store with ⟨v, after⟩ | ⟨error | reason, after⟩ <;> rfl

theorem attempt_onLetters {σ ε α : Type} {call : Method Q ε α} (store : σ) (letters : Q) :
    (onLetters call).attempt (store, letters) =
      (call.attempt letters).map fun (result, letters) => (result, store, letters) := by
  unfold Method.attempt onLetters
  dsimp only
  rcases call letters with ⟨v, after⟩ | ⟨error | reason, after⟩ <;> rfl

section

variable (queue : DeadLetterQueue Q T E)

theorem attempt_queueLetter (letter : DeadLetter T E)
    (store : MemoryStore) (letters : Q) :
    ending (queueLetter queue letter) store letters = (do
      let (result, letters) ← ((queue.push letter).attempt letters).mapError some
      return (Stage.ofPush result, store, letters)) := by
  unfold ending queueLetter
  rw [Method.attempt_bind, Method.attempt_mapErr, attempt_onLetters]
  rcases (queue.push letter).attempt letters with reason | ⟨error | ⟨⟩, after⟩ <;> rfl

theorem alone_ask (operation : T → Except E Unit) (steps : ℕ)
    (caller : Caller T E) (asking : caller.stage = .asking) (store : MemoryStore) (letters : Q) :
    Caller.alone queue operation (steps + 1) caller store letters = (do
      let (response, store) ← ((perform memoryStore caller.question).attempt store).mapError some
      Caller.alone queue operation steps { caller with stage := caller.answered response } store
        letters) := by
  rw [Caller.alone, asking]
  dsimp only [Stage.next]
  unfold Caller.advance
  rw [asking]
  rcases ((perform memoryStore caller.question).attempt store) with reason | ⟨response, after⟩ <;> rfl

theorem alone_settle (operation : T → Except E Unit) (steps : ℕ)
    (caller : Caller T E) (returned : caller.stage = .returned result)
    {told : Operation} (tells : caller.settlement result = some told) (store : MemoryStore)
    (letters : Q) :
    Caller.alone queue operation (steps + 1) caller store letters = (do
      let (response, store) ← ((perform memoryStore told).attempt store).mapError some
      Caller.alone queue operation steps { caller with stage := caller.settled result response } store
        letters) := by
  rw [Caller.alone, returned]
  dsimp only [Stage.next]
  unfold Caller.advance
  rw [returned]
  dsimp only
  rw [tells]
  dsimp only
  rcases ((perform memoryStore told).attempt store) with reason | ⟨response, after⟩ <;> rfl

theorem alone_queue (operation : T → Except E Unit) (steps : ℕ)
    (caller : Caller T E) {error : E} (queueing : caller.stage = .queueing error) (store : MemoryStore)
    (letters : Q) :
    Caller.alone queue operation (steps + 1) caller store letters =
      ending (queueLetter queue ⟨caller.key, caller.input, error⟩) store letters := by
  rw [attempt_queueLetter, Caller.alone, queueing]
  dsimp only [Stage.next]
  unfold Caller.advance
  rw [queueing]
  dsimp only
  rcases (queue.push ⟨caller.key, caller.input, error⟩).attempt letters with
    reason | ⟨error | ⟨⟩, after⟩
  · rfl
  · cases steps <;> rfl
  · cases steps <;> rfl

theorem alone_once (operation : T → Except E Unit) (key : Text)
    (input : T) (store : MemoryStore) (letters : Q) :
    Caller.alone queue operation 4 ⟨.once, key, input, .chosen⟩ store letters =
      ending (match (operation input).mapError Stop.err with
        | .ok () => (onStore (memoryStore.record key)).mapErr fun error => .record ⟨key, error⟩
        | .error (.err error) => queueLetter queue ⟨key, input, error⟩
        | .error (.panic reason) => throw (.panic reason)) store letters := by
  change Caller.alone queue operation 2 ⟨.once, key, input, .returned (operation input)⟩ store letters =
    _
  rcases operation input with error | ⟨⟩
  · exact alone_queue queue operation 0 ⟨.once, key, input, .queueing error⟩ rfl store letters
  · change _ = ending ((onStore (memoryStore.record key)).mapErr _) store letters
    rw [alone_settle queue operation 1 ⟨.once, key, input, .returned (.ok ())⟩ rfl rfl]
    unfold ending perform
    rw [Method.attempt_mapErr, attempt_onStore, Method.attempt_map]
    rcases (memoryStore.record key).attempt store with reason | ⟨error | ⟨⟩, after⟩ <;> rfl

/-- **A call of `RunOnce` that is alone does what the function does.** -/
theorem alone_runOnce (operation : T → Except E Unit) (key : Text)
    (input : T) (store : MemoryStore) (letters : Q) :
    Caller.alone queue operation 5 ⟨.once, key, input, .asking⟩ store letters =
      ending (runOnce memoryStore.toStore queue key input fun input => (operation input).mapError .err)
        store letters := by
  rw [alone_ask queue operation 4 _ rfl]
  unfold ending runOnce Caller.question perform
  rw [Method.attempt_bind, Method.attempt_mapErr, attempt_onStore, Method.attempt_map]
  rcases (memoryStore.contains key).attempt store with _ | ⟨_ | seen, after⟩
  · rfl
  · rfl
  · cases seen with
    | true => rfl
    | false => exact alone_once queue operation key input after letters

/-- **A call of `RunOnceReserved` that is alone does what the function does.** -/
theorem alone_runOnceReserved (operation : T → Except E Unit)
    (key : Text) (input : T) (store : MemoryStore) (letters : Q) :
    Caller.alone queue operation 5 ⟨.reserved, key, input, .asking⟩ store letters =
      ending (runOnceReserved memoryStore queue key input fun input => (operation input).mapError .err)
        store letters := by
  rw [alone_ask queue operation 4 _ rfl]
  unfold ending runOnceReserved Caller.question perform
  rw [Method.attempt_bind, Method.attempt_mapErr, attempt_onStore, Method.attempt_map]
  rcases (memoryStore.reserve key).attempt store with reason | ⟨error | reservation, after⟩
  · rfl
  · rfl
  · cases reservation with
    | completed | inProgress => rfl
    | acquired =>
      change Caller.alone queue operation 2 ⟨.reserved, key, input, .returned (operation input)⟩ after
        letters = ending (runReserved memoryStore queue key input _) after letters
      unfold runReserved
      beta_reduce
      rcases operation input with error | ⟨⟩
      · change _ = ending ((onStore (memoryStore.release key)).mapErr _ >>= fun _ =>
          queueLetter queue ⟨key, input, error⟩) after letters
        rw [alone_settle queue operation 1 ⟨.reserved, key, input, .returned (.error error)⟩ rfl rfl]
        unfold ending perform
        rw [Method.attempt_bind, Method.attempt_mapErr, attempt_onStore, Method.attempt_map]
        rcases (memoryStore.release key).attempt after with reason | ⟨_ | ⟨⟩, left⟩
        · rfl
        · rfl
        · exact alone_queue queue operation 0 ⟨.reserved, key, input, .queueing error⟩ rfl left letters
      · change _ = ending ((onStore (memoryStore.complete key)).mapErr _) after letters
        rw [alone_settle queue operation 1 ⟨.reserved, key, input, .returned (.ok ())⟩ rfl rfl]
        unfold ending perform
        rw [Method.attempt_mapErr, attempt_onStore, Method.attempt_map]
        rcases (memoryStore.complete key).attempt after with reason | ⟨error | ⟨⟩, left⟩ <;> rfl

end

/-! ### What a step of a call does -/

/-- **A step of a call does this to the store.** -/
inductive Moves (caller : Caller T E) (store : MemoryStore) : Stage T E → MemoryStore → Prop
  | asks {response : Except Error Response} {after : MemoryStore} (stage : caller.stage = .asking)
      (performs : Performs store caller.question response after) :
      Moves caller store (caller.answered response) after
  | starts (stage : caller.stage = .chosen) : Moves caller store .running store
  | finishes (result : Except E Unit) (stage : caller.stage = .running) :
      Moves caller store (.returned result) store
  | settles {result : Except E Unit} {operation : Operation} {response : Except Error Response}
      {after : MemoryStore} (stage : caller.stage = .returned result)
      (told : caller.settlement result = some operation)
      (performs : Performs store operation response after) :
      Moves caller store (caller.settled result response) after
  | keeps {error : E} (stage : caller.stage = .returned (.error error)) (once : caller.form = .once) :
      Moves caller store (.queueing error) store
  | queues {error : E} (result : Except (DeadLetterPushFailure T E) Unit)
      (stage : caller.stage = .queueing error) : Moves caller store (Stage.ofPush result) store

theorem mapError_eq_ok {ε δ α : Type} {convert : ε → δ} {result : Except ε α} {value : α} :
    result.mapError convert = .ok value ↔ result = .ok value := by
  cases result <;> simp [Except.mapError]

/-- Only `RunOnce` tells the store nothing, when the operation has failed. -/
theorem Caller.settlement_none (told : caller.settlement result = none) :
    caller.form = .once ∧ ∃ error, result = .error error := by
  unfold Caller.settlement at told
  split at told
  · cases told
  · rename_i error once
    exact ⟨once, error, rfl⟩
  · cases told
  · cases told

theorem moves_of_advance {event : Event E}
    (advanced : caller.advance queue event store letters = .ok (stage, after, letters')) :
    Moves caller store stage after := by
  unfold Caller.advance at advanced
  split at advanced
  · rename_i asking
    obtain ⟨⟨response, left⟩, asked, same⟩ := except_bind_eq_ok.mp advanced
    cases same
    exact .asks asking (performs_of_returns (Method.attempt_eq_ok.mp (mapError_eq_ok.mp asked)))
  · rename_i chosen
    cases advanced
    exact .starts chosen
  · rename_i running
    cases advanced
    exact .finishes _ running
  · rename_i result returned
    split at advanced
    · rename_i operation told
      obtain ⟨⟨_, left⟩, asked, same⟩ := except_bind_eq_ok.mp advanced
      cases same
      exact .settles returned told
        (performs_of_returns (Method.attempt_eq_ok.mp (mapError_eq_ok.mp asked)))
    · rename_i told
      cases advanced
      obtain ⟨once, error, rfl⟩ := Caller.settlement_none told
      exact .keeps returned once
  · rename_i error queueing
    obtain ⟨⟨result, _⟩, _, same⟩ := except_bind_eq_ok.mp advanced
    cases same
    exact .queues result queueing
  · cases advanced

theorem ask_eq_ok
    (advanced : caller.advance queue .ask store letters = .ok (stage, after, letters')) :
    ∃ response, Performs store caller.question response after ∧ stage = caller.answered response := by
  unfold Caller.advance at advanced
  split at advanced
  · obtain ⟨⟨response, left⟩, asked, same⟩ := except_bind_eq_ok.mp advanced
    cases same
    exact ⟨response, performs_of_returns (Method.attempt_eq_ok.mp (mapError_eq_ok.mp asked)), rfl⟩
  all_goals contradiction

theorem start_eq_ok
    (advanced : caller.advance queue .start store letters = .ok (stage, after, letters')) :
    caller.stage = .chosen := by
  unfold Caller.advance at advanced
  split at advanced
  case h_2 chosen _ => exact chosen
  all_goals contradiction

/-! ### The invariant of the calls -/

/-- At most one call with a key is in this state. -/
def Alone (Has : Caller T E → Prop) (callers : List (Caller T E)) : Prop :=
  ∀ (place place' : ℕ) (caller caller' : Caller T E), callers[place]? = some caller →
    callers[place']? = some caller' → Has caller → Has caller' → caller.key = caller'.key →
    place = place'

/-- **What holds of the calls and their store.** -/
structure Shares (state : Shared Q T E) : Prop where
  distinct : Distinct state.store
  reserved : ∀ caller ∈ state.callers, caller.Holds → caller.key ∈ state.store.reservations.items
  holders : Alone Caller.Holds state.callers
  recorded : ∀ caller ∈ state.callers, caller.Succeeded → caller.key ∈ state.store.keys.items
  successes : Alone Caller.Succeeded state.callers
  mixed : ∀ key ∈ state.store.reservations.items, key ∈ state.store.keys.items →
    ∃ caller ∈ state.callers, caller.form = .once ∧ caller.key = key

section Alone

variable {Has : Caller T E → Prop} {callers : List (Caller T E)} {place : ℕ}

theorem Alone.append (alone : Alone Has callers) (hasNot : ¬Has caller) :
    Alone Has (callers ++ [caller]) := by
  have old {i : ℕ} {other : Caller T E} (found : (callers ++ [caller])[i]? = some other)
      (has : Has other) : callers[i]? = some other := by
    rcases Nat.lt_or_ge i callers.length with inside | outside
    · rwa [List.getElem?_append_left inside] at found
    · rw [List.getElem?_append_right outside, List.getElem?_singleton] at found
      split at found
      · cases found
        exact absurd has hasNot
      · cases found
  intro i index' other other' found found' has has' same
  exact alone _ _ _ _ (old found has) (old found' has') has has' same

/-- A call changes; if it comes into this state then no other one with its key was in it. -/
theorem Alone.set (alone : Alone Has callers) (found : callers[place]? = some caller)
    (stage : Stage T E)
    (fresh : Has { caller with stage } → Has caller ∨ ∀ y ∈ callers, Has y →
      y.key ≠ caller.key) :
    Alone Has (callers.set place { caller with stage }) := by
  have inside : place < callers.length := (List.getElem?_eq_some_iff.mp found).1
  -- what is in this state beside the call that changes
  have apart {i : ℕ} {y : Caller T E} (ne : i ≠ place)
      (found' : callers[i]? = some y) (has : Has y) (new : Has { caller with stage })
      (same : y.key = caller.key) : False := by
    rcases fresh new with had | none
    · exact ne (alone _ _ _ _ found' found has had same)
    · exact none y (mem_of_getElem? found') has same
  intro i index' y y' found₁ found₂ has has' same
  rw [List.getElem?_set] at found₁ found₂
  by_cases here : place = i
  · rw [if_pos here, if_pos (by omega)] at found₁
    cases found₁
    by_cases here' : place = index'
    · exact here.symm.trans here'
    · rw [if_neg here'] at found₂
      exact (apart (Ne.symm here') found₂ has' has same.symm).elim
  · rw [if_neg here] at found₁
    by_cases here' : place = index'
    · rw [if_pos here', if_pos (by omega)] at found₂
      cases found₂
      exact (apart (Ne.symm here) found₁ has has' same).elim
    · rw [if_neg here'] at found₂
      exact alone _ _ _ _ found₁ found₂ has has' same

end Alone

theorem exists_set {callers : List (Caller T E)} (found : callers[place]? = some caller)
    (stage : Stage T E) {form : Form} {key : Text}
    (there : ∃ other ∈ callers, other.form = form ∧ other.key = key) :
    ∃ other ∈ callers.set place { caller with stage }, other.form = form ∧ other.key = key := by
  have inside : place < callers.length := (List.getElem?_eq_some_iff.mp found).1
  obtain ⟨other, mem, alike⟩ := there
  obtain ⟨index, found'⟩ := mem_iff_getElem?.mp mem
  by_cases here : place = index
  · subst here
    obtain rfl : caller = other := Option.some.inj (found.symm.trans found')
    exact ⟨_, mem_set inside _, alike⟩
  · refine ⟨other, mem_iff_getElem?.mpr ⟨index, ?_⟩, alike⟩
    rw [List.getElem?_set_ne here]
    exact found'

section Steps

variable {state : Shared Q T E} {place : ℕ} {after : MemoryStore}

/-- **A call changes, and the store with it.** -/
theorem Shares.change (shares : Shares state) (found : state.callers[place]? = some caller)
    (letters : Q) (distinct : Distinct after)
    (holds : ({ caller with stage } : Caller T E).Holds →
      (caller.Holds ∨ caller.key ∉ state.store.reservations.items) ∧
        caller.key ∈ after.reservations.items)
    (kept : ∀ key ∈ state.store.reservations.items, key ∈ after.reservations.items ∨
      key = caller.key ∧ caller.Holds ∧ ¬({ caller with stage } : Caller T E).Holds)
    (succeeds : ({ caller with stage } : Caller T E).Succeeded →
      caller.key ∉ state.store.keys.items ∧ caller.key ∈ after.keys.items)
    (keys : ∀ key ∈ state.store.keys.items, key ∈ after.keys.items)
    (mixed : ∀ key ∈ after.reservations.items, key ∈ after.keys.items →
      key ∈ state.store.reservations.items ∧ key ∈ state.store.keys.items ∨
        key = caller.key ∧ caller.form = .once) :
    Shares ⟨after, letters, state.callers.set place { caller with stage }⟩ where
  distinct := distinct
  reserved y mem hold := by
    obtain ⟨index, found'⟩ := mem_iff_getElem?.mp mem
    rw [List.getElem?_set] at found'
    split at found'
    · split at found'
      · cases found'
        exact (holds hold).2
      · cases found'
    · rename_i ne
      have reserved := shares.reserved y (mem_of_getElem? found') hold
      rcases kept y.key reserved with stays | ⟨same, held, _⟩
      · exact stays
      · exact absurd (shares.holders _ _ _ _ found found' held hold same.symm) ne
  holders := by
    refine shares.holders.set found stage fun new => ?_
    rcases (holds new).1 with held | free
    · exact .inl held
    · exact .inr fun y mem hold same => free (same ▸ shares.reserved y mem hold)
  recorded y mem success := by
    obtain ⟨_, found'⟩ := mem_iff_getElem?.mp mem
    rw [List.getElem?_set] at found'
    split at found'
    · split at found'
      · cases found'
        exact (succeeds success).2
      · cases found'
    · exact keys _ (shares.recorded y (mem_of_getElem? found') success)
  successes := by
    refine shares.successes.set found stage fun new => .inr fun y mem success same => ?_
    exact (succeeds new).1 (same ▸ shares.recorded y mem success)
  mixed key reserved known := by
    rcases mixed key reserved known with ⟨reserved, known⟩ | ⟨same, once⟩
    · exact exists_set found stage (shares.mixed key reserved known)
    · exact exists_set found stage ⟨caller, mem_of_getElem? found, once, same.symm⟩

/-- A step that leaves the store alone, and reserves and reports nothing. -/
theorem Shares.same (shares : Shares state) (found : state.callers[place]? = some caller)
    (letters : Q) (holds : ({ caller with stage } : Caller T E).Holds ↔ caller.Holds)
    (fails : ¬({ caller with stage } : Caller T E).Succeeded) :
    Shares ⟨state.store, letters, state.callers.set place { caller with stage }⟩ :=
  shares.change found letters shares.distinct
    (fun new => ⟨.inl (holds.mp new), shares.reserved caller (mem_of_getElem? found)
      (holds.mp new)⟩)
    (fun _ reserved => .inl reserved) (fun success => absurd success fails)
    (fun _ known => known) (fun _ reserved known => .inl ⟨reserved, known⟩)

theorem Caller.answered_ne (caller : Caller T E) (response : Except Error Response) :
    caller.answered response ≠ .done (.ok ()) := by
  rcases response with error | (_ | _) | (_ | _ | _) | _ <;> exact fun same => by cases same

theorem Form.cases (form : Form) : form = .once ∨ form = .reserved := by
  cases form with
  | once => exact .inl rfl
  | reserved => exact .inr rfl

section

variable (shares : Shares state)
include shares

theorem Shares.ends (found : state.callers[place]? = some caller)
    (letters : Q) (free : ¬caller.Holds) {error : RunError T E} :
    Shares ⟨state.store, letters,
      state.callers.set place { caller with stage := .done (.error error) }⟩ :=
  shares.same found letters ⟨fun hold => hold.2.elim, fun hold => absurd hold free⟩
    fun success => by cases success

theorem Shares.asks (found : state.callers[place]? = some caller)
    (letters : Q) (asking : caller.stage = .asking) {response : Except Error Response}
    (performs : Performs state.store caller.question response after) :
    Shares ⟨after, letters,
      state.callers.set place { caller with stage := caller.answered response }⟩ := by
  have free : ¬caller.Holds := by
    rintro ⟨_, active⟩
    rw [asking] at active
    exact active
  have distinct := shares.distinct.performs performs
  unfold Caller.question at performs
  rcases caller.form.cases with form | form
  · rw [form] at performs
    cases performs
    refine shares.same found letters ⟨fun hold => ?_, fun hold => absurd hold free⟩
      (caller.answered_ne (.ok (.flag (decide (caller.key ∈ state.store.keys.items)))))
    cases form.symm.trans hold.1
  · rw [form] at performs
    cases performs with
    | finished | inProgress => exact shares.ends found letters free
    | acquired fresh unreserved keys reservations =>
      refine shares.change found letters distinct (fun _ => ⟨.inr unreserved, ?_⟩) ?_
        (by rintro ⟨⟩) ?_ ?_
      · rw [reservations]
        exact mem_cons_self
      · intro key reserved
        rw [reservations]
        exact .inl (mem_cons_of_mem _ reserved)
      · rw [keys]
        exact fun _ known => known
      · intro key reserved known
        rw [reservations, mem_cons] at reserved
        rw [keys] at known
        rcases reserved with rfl | reserved
        · exact absurd known fresh
        · exact .inl ⟨reserved, known⟩

theorem Shares.kept_without (holds : caller.Holds) {key : Text}
    (reserved : key ∈ state.store.reservations.items)
    (gives : ¬({ caller with stage } : Caller T E).Holds) :
    key ∈ (without caller.key state.store.reservations).items ∨
      key = caller.key ∧ caller.Holds ∧ ¬({ caller with stage } : Caller T E).Holds := by
  by_cases same : key = caller.key
  · exact .inr ⟨same, holds, gives⟩
  · exact .inl (shares.distinct.mem_without.mpr ⟨same, reserved⟩)

theorem Shares.settles (found : state.callers[place]? = some caller)
    (letters : Q) (returned : caller.stage = .returned result)
    {op : Operation} (told : caller.settlement result = some op)
    {response : Except Error Response} (performs : Performs state.store op response after) :
    Shares ⟨after, letters,
      state.callers.set place { caller with stage := caller.settled result response }⟩ := by
  have distinct := shares.distinct.performs performs
  have mem := mem_of_getElem? found
  have active : caller.stage.Active := by
    rw [returned]
    exact trivial
  unfold Caller.settlement at told
  rcases caller.form.cases with form | form <;> rcases result with error | ⟨⟩ <;> rw [form] at told
  · cases told
  · cases told
    have free : ¬caller.Holds := by
      rintro ⟨reserved, _⟩
      cases form.symm.trans reserved
    cases performs with
    | known =>
      have same : caller.settled (.ok ()) (.error Error.duplicateKey) =
          .done (.error (.record ⟨caller.key, .duplicateKey⟩)) := by
        unfold Caller.settled
        rw [form]
      rw [same]
      exact shares.ends found letters free
    | recorded fresh keys reservations =>
      refine shares.change found letters distinct (fun hold => hold.2.elim) ?_ (fun _ => ⟨fresh, ?_⟩)
        ?_ ?_
      · rw [reservations]
        exact fun key reserved => .inl reserved
      · rw [keys]
        exact mem_cons_self
      · rw [keys]
        exact fun key known => mem_cons_of_mem _ known
      · intro key reserved known
        rw [reservations] at reserved
        rw [keys, mem_cons] at known
        rcases known with same | known
        · exact .inr ⟨same, form⟩
        · exact .inl ⟨reserved, known⟩
  · cases told
    have holds : caller.Holds := ⟨form, active⟩
    cases performs with
    | unheld free => exact absurd (shares.reserved caller mem holds) free
    | released =>
      refine shares.change found letters distinct (fun hold => hold.2.elim) ?_
        (fun success => by cases success) (fun _ known => known) ?_
      · exact fun _ reserved => shares.kept_without holds reserved fun hold => hold.2
      · exact fun key reserved known => .inl ⟨(shares.distinct.mem_without.mp reserved).2, known⟩
  · cases told
    have holds : caller.Holds := ⟨form, active⟩
    cases performs with
    | unreserved free => exact absurd (shares.reserved caller mem holds) free
    | dropped held known =>
      have same : caller.settled (.ok ()) (.error Error.duplicateKey) =
          .done (.error (.complete ⟨caller.key, .duplicateKey⟩)) := by
        unfold Caller.settled
        rw [form]
      rw [same]
      refine shares.change found letters distinct (fun hold => hold.2.elim) ?_
        (fun success => by cases success) (fun _ known => known) ?_
      · exact fun _ reserved => shares.kept_without holds reserved fun hold => hold.2
      · exact fun key reserved known => .inl ⟨(shares.distinct.mem_without.mp reserved).2, known⟩
    | completed held fresh keys reservations =>
      refine shares.change found letters distinct (fun hold => hold.2.elim) ?_ (fun _ => ⟨fresh, ?_⟩)
        ?_ ?_
      · intro key reserved
        rw [reservations]
        exact shares.kept_without holds reserved fun hold => hold.2
      · rw [keys]
        exact mem_cons_self
      · rw [keys]
        exact fun key known => mem_cons_of_mem _ known
      · intro key reserved known
        rw [reservations, shares.distinct.mem_without] at reserved
        rw [keys, mem_cons] at known
        rcases known with same | known
        · exact absurd same reserved.1
        · exact .inl ⟨reserved.2, known⟩

theorem Shares.moves (found : state.callers[place]? = some caller)
    (letters : Q) (moves : Moves caller state.store stage after) :
    Shares ⟨after, letters, state.callers.set place { caller with stage }⟩ := by
  cases moves with
  | asks asking performs => exact shares.asks found letters asking performs
  | settles returned told performs => exact shares.settles found letters returned told performs
  | starts chosen =>
    refine shares.same found letters ⟨fun hold => ⟨hold.1, ?_⟩, fun hold => ⟨hold.1, trivial⟩⟩
      fun success => by cases success
    rw [chosen]
    exact trivial
  | finishes result running =>
    refine shares.same found letters ⟨fun hold => ⟨hold.1, ?_⟩, fun hold => ⟨hold.1, trivial⟩⟩
      fun success => by cases success
    rw [running]
    exact trivial
  | keeps returned once =>
    refine shares.same found letters ⟨fun hold => hold.2.elim, fun hold => ?_⟩
      fun success => by cases success
    cases once.symm.trans hold.1
  | queues result queueing =>
    have free : ¬caller.Holds := by
      rintro ⟨_, active⟩
      rw [queueing] at active
      exact active
    cases result with
    | error => exact shares.ends found letters free
    | ok => exact shares.ends found letters free

end

end Steps

/-! ### Runs -/

section Run

variable {letters : Q} {state after : Shared Q T E}

theorem move_eq_ok {event : Event E}
    (taken : (sharing queue letters).step (.move place event) state = .ok after) :
    ∃ caller stage store letters', state.callers[place]? = some caller ∧
      caller.advance queue event state.store state.letters = .ok (stage, store, letters') ∧
      after = ⟨store, letters', state.callers.set place { caller with stage }⟩ := by
  change (match state.callers[place]? with
    | none => _
    | some caller => _) = _ at taken
  split at taken
  · cases taken
  · rename_i caller found
    obtain ⟨⟨stage, store, letters'⟩, advanced, same⟩ := except_bind_eq_ok.mp taken
    cases same
    exact ⟨caller, stage, store, letters', found, advanced, rfl⟩

theorem shares_initial : Shares (sharing queue letters).initial where
  distinct := distinct_newMemoryStore
  reserved := by rintro _ ⟨⟩
  holders := by rintro _ _ _ _ ⟨⟩
  recorded := by rintro _ ⟨⟩
  successes := by rintro _ _ _ _ ⟨⟩
  mixed := by rintro _ ⟨⟩

theorem Shares.call (shares : Shares state) (form : Form) (key : Text) (input : T) :
    Shares { state with callers := state.callers ++ [⟨form, key, input, .asking⟩] } where
  distinct := shares.distinct
  reserved caller mem hold := by
    rcases mem_append.mp mem with old | new
    · exact shares.reserved caller old hold
    · obtain rfl := mem_singleton.mp new
      exact hold.2.elim
  holders := shares.holders.append fun hold => hold.2
  recorded caller mem success := by
    rcases mem_append.mp mem with old | new
    · exact shares.recorded caller old success
    · obtain rfl := mem_singleton.mp new
      cases success
  successes := shares.successes.append fun success => by cases success
  mixed key reserved known := by
    obtain ⟨caller, mem, alike⟩ := shares.mixed key reserved known
    exact ⟨caller, mem_append_left _ mem, alike⟩

/-- **Every run keeps the invariant.** -/
theorem shares_of_run {actions : List (Action T E)} (run : (sharing queue letters).Run actions state) :
    Shares state := by
  refine run.invariant Shares shares_initial ?_
  intro before after action shares _ taken
  cases action with
  | call form key input =>
    cases taken
    exact shares.call form key input
  | move =>
    obtain ⟨_, _, _, letters', found, advanced, rfl⟩ := move_eq_ok taken
    exact shares.moves found letters' (moves_of_advance advanced)

/-- The store has let a call in. -/
def LetIn (queue : DeadLetterQueue Q T E) (letters : Q) (place : ℕ) (before : Shared Q T E) : Prop :=
  ∃ after caller, (sharing queue letters).step (.move place .ask) before = .ok after ∧
    after.callers[place]? = some caller ∧ caller.stage = .chosen

/-- The operation of a call starts. -/
def Starts (queue : DeadLetterQueue Q T E) (letters : Q) (place : ℕ) (before : Shared Q T E) : Prop :=
  ∃ after, (sharing queue letters).step (.move place .start) before = .ok after

theorem fresh_of_letIn {caller : Caller T E} (found : state.callers[place]? = some caller)
    (letIn : LetIn queue letters place state) : caller.key ∉ state.store.keys.items := by
  obtain ⟨_, _, taken, found', chosen⟩ := letIn
  obtain ⟨caller', stage, _, _, found'', advanced, rfl⟩ := move_eq_ok taken
  obtain rfl : caller = caller' := Option.some.inj (found.symm.trans found'')
  have inside : place < state.callers.length := (List.getElem?_eq_some_iff.mp found).1
  rw [List.getElem?_set_self inside] at found'
  obtain rfl := Option.some.inj found'
  obtain rfl : stage = .chosen := chosen
  obtain ⟨_, performs, answered⟩ := ask_eq_ok advanced
  intro known
  unfold Caller.question at performs
  rcases caller.form.cases with form | form <;> rw [form] at performs
  · cases performs
    rw [decide_eq_true known] at answered
    cases answered
  · cases performs with
    | finished | inProgress => cases answered
    | acquired fresh => exact fresh known

theorem chosen_of_starts {caller : Caller T E}
    (found : state.callers[place]? = some caller) (starts : Starts queue letters place state) :
    caller.stage = .chosen := by
  obtain ⟨_, taken⟩ := starts
  obtain ⟨caller', _, _, _, found', advanced, rfl⟩ := move_eq_ok taken
  obtain rfl : caller = caller' := Option.some.inj (found.symm.trans found')
  exact start_eq_ok advanced

end Run

/-! ### The result -/

/-- **Work runs once.** In the store no key is completed or reserved twice. As long as no key is recorded
while it is reserved, no key is both, and an operation that fails changes nothing; in any case a failed
operation changes nothing but the reservation of a key that is completed already. For a key, at most one
call succeeds, at most one call holds it, and no call is let in after a success; if all calls for it reserve
it, no operation starts while another call holds it or after a success. -/
theorem idempotency (queue : DeadLetterQueue Q T E) (letters : Q) :
    (∀ {operations : List Operation} {store : MemoryStore}, storing.Run operations store →
      store.keys.items.Nodup ∧ store.reservations.items.Nodup ∧
      ∀ {operation : Operation} {error : Error} {after : MemoryStore},
        Method.Returns (perform memoryStore operation) store (.error error) after →
        after = store ∨ ∃ key, operation = .complete key ∧ key ∈ store.keys.items ∧
          key ∈ store.reservations.items ∧ error = .duplicateKey ∧
          after = { store with reservations := without key store.reservations }) ∧
    (∀ {operations : List Operation} {store : MemoryStore},
      (storing.restrict Careful).Run operations store →
      (∀ key ∈ store.reservations.items, key ∉ store.keys.items) ∧
      ∀ {operation : Operation} {error : Error} {after : MemoryStore},
        Method.Returns (perform memoryStore operation) store (.error error) after → after = store) ∧
    ∀ {actions : List (Action T E)} {state : Shared Q T E}, (sharing queue letters).Run actions state →
      Alone Caller.Succeeded state.callers ∧ Alone Caller.Holds state.callers ∧
      ∀ {place : ℕ} {caller : Caller T E}, state.callers[place]? = some caller →
        (LetIn queue letters place state → ∀ other ∈ state.callers, other.Succeeded →
          other.key ≠ caller.key) ∧
        (Starts queue letters place state →
          (∀ other ∈ state.callers, other.key = caller.key → other.form = .reserved) →
          (∀ place' other, state.callers[place']? = some other → other.key = caller.key →
            other.Holds → place' = place) ∧
          ∀ other ∈ state.callers, other.Succeeded → other.key ≠ caller.key) := by
  refine ⟨?_, ?_, ?_⟩
  · intro operations store run
    have distinct := distinct_of_run run
    exact ⟨distinct.keys, distinct.reservations, fun returned =>
      (performs_of_returns returned).unchanged⟩
  · intro operations store run
    have apart := apart_of_run run
    refine ⟨apart, fun returned => ?_⟩
    rcases (performs_of_returns returned).unchanged with same | ⟨key, _, known, reserved, _⟩
    · exact same
    · exact absurd known (apart key reserved)
  · intro actions state run
    have shares := shares_of_run run
    refine ⟨shares.successes, shares.holders, fun {place caller} found => ⟨fun letIn => ?_, fun starts
      reserving => ?_⟩⟩
    · intro other mem success same
      exact fresh_of_letIn found letIn (same ▸ shares.recorded other mem success)
    · have mem := mem_of_getElem? found
      have chosen := chosen_of_starts found starts
      have holds : caller.Holds := ⟨reserving caller mem rfl, by rw [chosen]; exact trivial⟩
      refine ⟨fun place' other found' same hold => shares.holders _ _ _ _ found' found hold holds same, ?_⟩
      intro other mem' success same
      -- a key that is reserved and recorded has been recorded by `RunOnce`
      obtain ⟨third, member'', once, same'⟩ := shares.mixed caller.key
        (shares.reserved caller mem holds) (same ▸ shares.recorded other mem' success)
      cases once.symm.trans (reserving third member'' same')

end Sharing

/-- The key of the samples. -/
def keyA : Text :=
  .letterA

/-- Two calls that reserve one key; the first one succeeds and the second one is turned away. -/
theorem idempotency_sample :
    ∃ (state : Shared (LinkedList (DeadLetter Unit Unit)) Unit Unit),
      (sharing (memoryDeadLetters Unit Unit) .newList).Run
        [.call .reserved keyA (), .call .reserved keyA (), .move 0 .ask, .move 1 .ask, .move 0 .start,
          .move 0 (.finish (.ok ())), .move 0 .settle] state ∧
        state.store.keys.items = [keyA] ∧ Alone Caller.Succeeded state.callers := by
  have run := Machine.Run.follow .start (rfl : (sharing (memoryDeadLetters Unit Unit) .newList).follow
    [.call .reserved keyA (), .call .reserved keyA (), .move 0 .ask, .move 1 .ask, .move 0 .start,
      .move 0 (.finish (.ok ())), .move 0 .settle] _ = some _)
  exact ⟨_, run, rfl, ((idempotency (memoryDeadLetters Unit Unit) .newList).2.2 run).1⟩

/-- **A key that is recorded while it is reserved is both**, and then `Complete` fails and still gives the
reservation back. `RunOnce` starts while another call holds the key, and also after another call has
recorded its success. -/
theorem idempotency_mixed :
    (∃ store after : MemoryStore, storing.Run [.reserve keyA, .record keyA] store ∧
      keyA ∈ store.keys.items ∧ keyA ∈ store.reservations.items ∧
      Method.Returns (perform memoryStore (.complete keyA)) store (.error .duplicateKey) after ∧
      after ≠ store) ∧
    (∃ (state : Shared (LinkedList (DeadLetter Unit Unit)) Unit Unit) (first second : Caller Unit Unit),
      (sharing (memoryDeadLetters Unit Unit) .newList).Run
        [.call .reserved keyA (), .call .once keyA (), .move 0 .ask, .move 1 .ask] state ∧
        state.callers[0]? = some first ∧ state.callers[1]? = some second ∧ first.Holds ∧
        second.key = first.key ∧ Starts (memoryDeadLetters Unit Unit) .newList 1 state) ∧
    ∃ (state : Shared (LinkedList (DeadLetter Unit Unit)) Unit Unit) (first second : Caller Unit Unit),
      (sharing (memoryDeadLetters Unit Unit) .newList).Run
        [.call .once keyA (), .call .once keyA (), .move 0 .ask, .move 1 .ask, .move 0 .start,
          .move 0 (.finish (.ok ())), .move 0 .settle] state ∧
        state.callers[0]? = some first ∧ state.callers[1]? = some second ∧ first.Succeeded ∧
        second.key = first.key ∧ first.key ∈ state.store.keys.items ∧
        Starts (memoryDeadLetters Unit Unit) .newList 1 state := by
  refine ⟨?_, ?_, ?_⟩
  · have run := Machine.Run.follow .start
      (rfl : storing.follow [.reserve keyA, .record keyA] _ = some _)
    refine ⟨_, _, run, mem_cons_self, mem_cons_self, .err rfl, ?_⟩
    intro same
    cases congrArg (fun store : MemoryStore => store.reservations.items) same
  · have run := Machine.Run.follow .start
      (rfl : (sharing (memoryDeadLetters Unit Unit) .newList).follow
        [.call .reserved keyA (), .call .once keyA (), .move 0 .ask, .move 1 .ask] _ = some _)
    exact ⟨_, _, _, run, rfl, rfl, ⟨rfl, trivial⟩, rfl, _, rfl⟩
  · have run := Machine.Run.follow .start
      (rfl : (sharing (memoryDeadLetters Unit Unit) .newList).follow
        [.call .once keyA (), .call .once keyA (), .move 0 .ask, .move 1 .ask, .move 0 .start,
          .move 0 (.finish (.ok ())), .move 0 .settle] _ = some _)
    exact ⟨_, _, _, run, rfl, rfl, rfl, rfl, mem_cons_self, _, rfl⟩

end FoundationLang.Saga
