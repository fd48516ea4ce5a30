/-
**The two retry loops of `foundation.resiliency`.**

* `retry`, `retryStateful` — a loop, and a task that spawns itself for the next attempt.
-/

import FoundationLang.Resiliency.Circuit

namespace FoundationLang.Resiliency

open Standard

/-- The error of the last attempt, or of the options. -/
inductive RetryError (E : Type)
  | operation (error : E)
  | invalidConfiguration (error : ConfigurationError)
  | cancelled

/-- What a loop does that others see. -/
inductive RetryEvent
  | called
  | delayed (nanoseconds : ℕ)
deriving DecidableEq

/-- `RetryOptions`. A callback may answer by all that has happened, the latest first. -/
structure RetryOptions (E : Type) where
  attempts : Int32
  initialDelay : Duration
  maxDelay : Duration
  factor : Float
  jitter : Float
  retryIf : Option (List RetryEvent → E → Bool)

/-- What a call of the stateful retry returns. -/
structure StatefulRetryOutcome (S T E : Type) where
  state : S
  options : RetryOptions E
  value : Except (RetryError E) T

/-- What the loops ask: the operation, the delay of the runtime, which reads the clock, with its
status, and whether the task is cancelled in a delay. -/
structure Surroundings (T E : Type) where
  operation : List RetryEvent → Except E T
  retryDelayNative : List RetryEvent → ℤ → ℤ → Float → Float → ℕ → ℤ × ℤ
  cancelled : List RetryEvent → ℕ → Bool

variable {S T E : Type}

/-- The options are valid. -/
def validateRetryOptions (options : RetryOptions E) : Except ConfigurationError Unit :=
  if options.attempts.toInt < 1 then .error .invalidAttempts
  else if options.initialDelay.nanoseconds < 0 then .error .invalidInitialDelay
  else if options.maxDelay.nanoseconds < options.initialDelay.nanoseconds then
    .error .invalidMaxDelay
  else if !options.factor.isFinite || options.factor < 1.0 then .error .invalidFactor
  else if !options.jitter.isFinite || options.jitter < 0.0 || options.jitter > 1.0 then
    .error .invalidJitter
  else .ok ()

/-- The condition, which is given back, and its answer. -/
structure RetryDecision (E : Type) where
  condition : Option (List RetryEvent → E → Bool)
  allowed : Bool

/-- The condition allows another attempt. -/
def retryAllowed (condition : Option (List RetryEvent → E → Bool)) (history : List RetryEvent)
    (error : E) : RetryDecision E :=
  match condition with
  | none => ⟨none, true⟩
  | some predicate => ⟨some predicate, predicate history error⟩

/-- The number of attempts before this one. -/
def retryAttempt (attempt : ℤ) : Except String ℕ :=
  if attempt - 1 < 0 then .error "retry attempt invariant failed" else .ok (attempt - 1).toNat

/-- The loop, from an attempt on. -/
def retry (surroundings : Surroundings T E) (options : RetryOptions E) (attempt : ℤ)
    (history : List RetryEvent) : Except String (Except (RetryError E) T × List RetryEvent) :=
  if attempt < options.attempts.toInt then
    match surroundings.operation history with
    | .error error =>
      if attempt = 2147483647 then .error "integer overflow"
      else
        let history := .called :: history
        let decision := retryAllowed options.retryIf history error
        if options.attempts.toInt ≤ attempt + 1 ∨ decision.allowed = false then
          .ok (.error (.operation error), history)
        else do
          let (status, delay) := surroundings.retryDelayNative history
            options.initialDelay.nanoseconds options.maxDelay.nanoseconds options.factor
            options.jitter (← retryAttempt (attempt + 1))
          if status ≠ 0 then .ok (.error (.invalidConfiguration .invalidFactor), history)
          else if delay < 0 then .ok (.error (.invalidConfiguration .invalidInitialDelay), history)
          else if surroundings.cancelled history delay.toNat then .ok (.error .cancelled, history)
          else
            retry surroundings { options with retryIf := decision.condition } (attempt + 1)
              (.delayed delay.toNat :: history)
    | .ok value => .ok (.ok value, .called :: history)
  else .error "retry attempt invariant failed"
termination_by (options.attempts.toInt - attempt).toNat
decreasing_by omega

/-- `change` is what a call of the operation does to the state. -/
def retryStateful (surroundings : Surroundings T E) (change : List RetryEvent → S → S) (state : S)
    (options : RetryOptions E) (attempt : ℤ) (history : List RetryEvent) :
    Except String (StatefulRetryOutcome S T E × List RetryEvent) :=
  let state := change history state
  match surroundings.operation history with
  | .error error =>
    if attempt = 2147483647 then .error "integer overflow"
    else
      let history := .called :: history
      let decision := retryAllowed options.retryIf history error
      let active := { options with retryIf := decision.condition }
      if active.attempts.toInt ≤ attempt + 1 ∨ decision.allowed = false then
        .ok (⟨state, active, .error (.operation error)⟩, history)
      else do
        let (status, delay) := surroundings.retryDelayNative history
          active.initialDelay.nanoseconds active.maxDelay.nanoseconds active.factor
          active.jitter (← retryAttempt (attempt + 1))
        if status ≠ 0 then
          .ok (⟨state, active, .error (.invalidConfiguration .invalidFactor)⟩, history)
        else if delay < 0 then
          .ok (⟨state, active, .error (.invalidConfiguration .invalidInitialDelay)⟩, history)
        else if surroundings.cancelled history delay.toNat then
          .ok (⟨state, active, .error .cancelled⟩, history)
        else
          retryStateful surroundings change state active (attempt + 1)
            (.delayed delay.toNat :: history)
  | .ok value => .ok (⟨state, options, .ok value⟩, .called :: history)
termination_by (options.attempts.toInt - attempt).toNat
decreasing_by
  have same : active.attempts.toInt = options.attempts.toInt := rfl
  omega

/-- `Retry`. -/
def retryOperation (surroundings : Surroundings T E) (options : RetryOptions E) :
    Except String (Except (RetryError E) T × List RetryEvent) :=
  match validateRetryOptions options with
  | .error error => .ok (.error (.invalidConfiguration error), [])
  | .ok _ => retry surroundings options 0 []

/-- `RetryStateful`. -/
def retryStatefulOperation (surroundings : Surroundings T E) (change : List RetryEvent → S → S)
    (state : S) (options : RetryOptions E) :
    Except String (StatefulRetryOutcome S T E × List RetryEvent) :=
  match validateRetryOptions options with
  | .error error => .ok (⟨state, options, .error (.invalidConfiguration error)⟩, [])
  | .ok _ => retryStateful surroundings change state options 0 []

@[simp]
theorem retryAllowed_condition (condition : Option (List RetryEvent → E → Bool))
    (history : List RetryEvent) (error : E) :
    (retryAllowed condition history error).condition = condition := by
  cases condition <;> rfl

theorem retryStateful_agrees (surroundings : Surroundings T E) (change : List RetryEvent → S → S)
    (options : RetryOptions E) {attempt : ℤ} (counted : 0 ≤ attempt)
    (below : attempt < options.attempts.toInt) (s : S) (history : List RetryEvent) :
    ∃ result after final, retry surroundings options attempt history = .ok (result, after)
      ∧ retryStateful surroundings change s options attempt history
        = .ok (⟨final, options, result⟩, after)
      ∧ after.count .called + attempt ≤ history.count .called + options.attempts.toInt := by
  induction left : (options.attempts.toInt - attempt).toNat generalizing attempt s history with
  | zero => omega
  | succ left ih =>
    unfold retry retryStateful
    rw [if_pos below]
    have called : ((.called :: history : List RetryEvent).count .called : ℤ) + attempt
        ≤ history.count .called + options.attempts.toInt := by
      rw [List.count_cons_self]
      omega
    cases surroundings.operation history with
    | ok v => exact ⟨_, _, _, rfl, rfl, called⟩
    | error error =>
      have room : attempt ≠ 2147483647 := by
        have limit := options.attempts.toInt_lt
        omega
      have number : retryAttempt (attempt + 1) = .ok attempt.toNat := by
        rw [retryAttempt, if_neg (by omega), Int.add_sub_cancel]
      simp only [if_neg room, retryAllowed_condition, number]
      split
      · exact ⟨_, _, _, rfl, rfl, called⟩
      simp only [bind, Except.bind]
      split
      · exact ⟨_, _, _, rfl, rfl, called⟩
      split
      · exact ⟨_, _, _, rfl, rfl, called⟩
      split
      · exact ⟨_, _, _, rfl, rfl, called⟩
      rename_i more _ _ _
      rw [not_or] at more
      obtain ⟨result, after, final, loop, task, fewer⟩ :=
        @ih (attempt + 1) (by omega) (by omega) (change history s) _ (by omega)
      refine ⟨result, after, final, loop, task, ?_⟩
      rw [List.count_cons_of_ne (by simp), List.count_cons_self] at fewer
      omega

/-- **`Retry` and `RetryStateful` agree**: no panic is reached, the calls and the delays between
them are the same, and so is the result; the operation runs at most `Attempts` times. -/
theorem retry_agrees (surroundings : Surroundings T E) (change : List RetryEvent → S → S)
    (state : S) (options : RetryOptions E) :
    ∃ result history final, retryOperation surroundings options = .ok (result, history)
      ∧ retryStatefulOperation surroundings change state options
        = .ok (⟨final, options, result⟩, history)
      ∧ history.count .called ≤ options.attempts.toInt.toNat := by
  unfold retryOperation retryStatefulOperation
  cases checked : validateRetryOptions options with
  | error error => exact ⟨_, _, _, rfl, rfl, Nat.zero_le _⟩
  | ok valid =>
    have below : 0 < options.attempts.toInt := by
      unfold validateRetryOptions at checked
      split at checked
      · cases checked
      · omega
    obtain ⟨result, history, final, loop, task, fewer⟩ :=
      retryStateful_agrees surroundings change options (Int.le_refl 0) below state []
    refine ⟨result, history, final, loop, task, ?_⟩
    rw [List.count_nil] at fewer
    omega

end FoundationLang.Resiliency
