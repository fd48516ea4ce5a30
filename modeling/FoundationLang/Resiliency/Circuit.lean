/-
**The circuit breaker of `foundation.resiliency`.**

* `CircuitBreaker.execute` — one synchronous call, with the readings of the clock that it takes.
-/

import FoundationLang.Standard.Time
import Mathlib.Algebra.Group.Int.Defs

namespace FoundationLang.Resiliency

open Standard

/-- Whether calls come through. -/
inductive CircuitState
  | closed
  | «open»
  | halfOpen
deriving DecidableEq

/-- A call that was not let through, or that failed. -/
inductive CircuitError (E : Type)
  | «open»
  | operation (error : E)
deriving DecidableEq

/-- `CircuitBreaker`, with the calls of its callbacks so far. -/
structure CircuitBreaker (F : Type) where
  state : CircuitState
  failures : ℤ
  threshold : ℤ
  openDuration : Duration
  lastFailure : MonotonicInstant
  probing : Bool
  onStateChange : Option F
  calls : List (F × CircuitState × CircuitState)

/-- Why a policy is not built. -/
inductive ConfigurationError
  | invalidThreshold | invalidTimeout | invalidAttempts | invalidInitialDelay | invalidMaxDelay
  | invalidFactor | invalidJitter

/-- One call of `Execute`: the clock when it is admitted, what the operation returns, and the clock
when its failure is recorded. -/
structure Call (E : Type) where
  entry : MonotonicInstant
  outcome : Except E Unit
  failure : MonotonicInstant

variable {E F : Type}

/-- A closed breaker. -/
def newCircuitBreaker (threshold : ℤ) (openDuration : Duration) (now : MonotonicInstant) :
    Except ConfigurationError (CircuitBreaker F) :=
  if threshold ≤ 0 then .error .invalidThreshold
  else if openDuration.nanoseconds ≤ 0 then .error .invalidTimeout
  else .ok ⟨.closed, 0, threshold, openDuration, now, false, none, []⟩

namespace CircuitBreaker

/-- Another state; the listener hears of it. -/
def changeCircuitState (breaker : CircuitBreaker F) (state : CircuitState) : CircuitBreaker F :=
  if breaker.state = state then breaker
  else
    { breaker with
      state := state
      calls := breaker.calls ++
        (breaker.onStateChange.map fun callback => (callback, breaker.state, state)).toList }

/-- One call at a time probes. -/
def allowHalfOpenCircuit (breaker : CircuitBreaker F) : Bool × CircuitBreaker F :=
  if breaker.probing then (false, breaker) else (true, { breaker with probing := true })

/-- When the time is over, a call probes. -/
def allowOpenCircuit (now : MonotonicInstant) (breaker : CircuitBreaker F) :
    Bool × CircuitBreaker F :=
  match now.since breaker.lastFailure with
  | .error _ => (false, breaker)
  | .ok elapsed =>
    if elapsed.nanoseconds ≤ breaker.openDuration.nanoseconds then (false, breaker)
    else allowHalfOpenCircuit ({ breaker with probing := false }.changeCircuitState .halfOpen)

/-- A call is let through, or not. -/
def circuitAllows (now : MonotonicInstant) (breaker : CircuitBreaker F) : Bool × CircuitBreaker F :=
  match breaker.state with
  | .closed => (true, breaker)
  | .open => breaker.allowOpenCircuit now
  | .halfOpen => breaker.allowHalfOpenCircuit

/-- What a success changes. -/
def circuitSucceeded (breaker : CircuitBreaker F) : CircuitBreaker F :=
  let breaker := { breaker with failures := 0 }
  if breaker.state = .halfOpen then { breaker with probing := false }.changeCircuitState .closed
  else breaker

/-- There is no result where the addition of `i32` overflows. -/
def circuitFailed (now : MonotonicInstant) (breaker : CircuitBreaker F) :
    Option (CircuitBreaker F) :=
  let breaker := { breaker with lastFailure := now }
  if breaker.state = .halfOpen then
    some ({ breaker with probing := false, failures := 0 }.changeCircuitState .open)
  else if breaker.failures = 2147483647 then none
  else
    let breaker := { breaker with failures := breaker.failures + 1 }
    some (if breaker.state = .closed ∧ breaker.threshold ≤ breaker.failures then
      breaker.changeCircuitState .open else breaker)

/-- One call. -/
def execute (call : Call E) (breaker : CircuitBreaker F) :
    Option (Except (CircuitError E) Unit × CircuitBreaker F) :=
  match breaker.circuitAllows call.entry with
  | (false, breaker) => some (.error .open, breaker)
  | (true, breaker) =>
    match call.outcome with
    | .ok value => some (.ok value, breaker.circuitSucceeded)
    | .error error =>
      (breaker.circuitFailed call.failure).map fun breaker => (.error (.operation error), breaker)

/-- Calls one after the other. -/
def executeAll : List (Call E) → CircuitBreaker F →
    Option (List (Except (CircuitError E) Unit) × CircuitBreaker F)
  | [], breaker => some ([], breaker)
  | call :: calls, breaker => do
    let (result, breaker) ← breaker.execute call
    let (results, breaker) ← executeAll calls breaker
    some (result :: results, breaker)

end CircuitBreaker

/-! ### The specification -/

/-- The specification: closed with a number of consecutive failures, open since the last failure, or
half-open with a probe under way. -/
inductive Circuit
  | closed (failures : ℕ)
  | «open» (since : MonotonicInstant)
  | halfOpen

/-- More than the open duration has passed. One of the largest value never passes, since no time
between two readings is longer. -/
def Passed (openDuration : Duration) (since now : MonotonicInstant) : Prop :=
  openDuration.nanoseconds < (now.nanoseconds : ℤ) - since.nanoseconds
    ∧ openDuration.nanoseconds < maximumDuration.nanoseconds

instance (openDuration : Duration) (since now : MonotonicInstant) :
    Decidable (Passed openDuration since now) :=
  inferInstanceAs (Decidable (_ ∧ _))

namespace Circuit

variable (threshold : ℤ) (openDuration : Duration)

/-- The state in which the operation runs, when it runs. -/
def enter (now : MonotonicInstant) : Circuit → Option Circuit
  | .closed failures => some (.closed failures)
  | .open since => if Passed openDuration since now then some .halfOpen else none
  | .halfOpen => none

/-- The state after the operation. -/
def settle (call : Call E) (running : Circuit) : Circuit :=
  match call.outcome, running with
  | .ok _, _ => .closed 0
  | .error _, .closed failures =>
    if failures + 1 = threshold then .open call.failure else .closed (failures + 1)
  | .error _, _ => .open call.failure

/-- One call. -/
def execute (call : Call E) (circuit : Circuit) : Except (CircuitError E) Unit × Circuit :=
  match circuit.enter openDuration call.entry with
  | none => (.error .open, circuit)
  | some running => (call.outcome.mapError .operation, running.settle threshold call)

/-- Calls one after the other. -/
def executeAll : List (Call E) → Circuit → List (Except (CircuitError E) Unit) × Circuit
  | [], circuit => ([], circuit)
  | call :: calls, circuit =>
    let (result, circuit) := circuit.execute threshold openDuration call
    let (results, circuit) := executeAll calls circuit
    (result :: results, circuit)

end Circuit

/-! ### The breaker is as specified -/

/-- What the breaker holds between two calls. -/
structure Represents (limit : ℤ) (duration : Duration) (breaker : CircuitBreaker F)
    (circuit : Circuit) : Prop where
  positive : 0 < limit
  threshold : breaker.threshold = limit
  openDuration : breaker.openDuration = duration
  state : match circuit with
    | .closed failures => breaker.state = .closed ∧ breaker.failures = failures ∧ failures < limit
    | .open since => breaker.state = .open ∧ breaker.lastFailure = since
    | .halfOpen => False

section

variable {threshold : ℤ} {openDuration : Duration} {breaker : CircuitBreaker F} {circuit : Circuit}

theorem passed_iff (pos : 0 ≤ openDuration.nanoseconds) {since now : MonotonicInstant} :
    Passed openDuration since now ↔ ∃ elapsed, now.since since = .ok elapsed
      ∧ ¬elapsed.nanoseconds ≤ openDuration.nanoseconds := by
  unfold Passed MonotonicInstant.since fromNanoseconds maximumDuration
  split
  · refine iff_of_false ?_ (by rintro ⟨_, ⟨⟩, -⟩)
    omega
  · split
    all_goals
      simp only [Except.ok.injEq, exists_eq_left']
      omega

theorem allowOpenCircuit_eq (pos : 0 ≤ breaker.openDuration.nanoseconds)
    (now : MonotonicInstant) :
    breaker.allowOpenCircuit now =
      if Passed breaker.openDuration breaker.lastFailure now then
        ({ breaker with probing := false }.changeCircuitState .halfOpen).allowHalfOpenCircuit
      else (false, breaker) := by
  unfold CircuitBreaker.allowOpenCircuit
  by_cases passed : Passed breaker.openDuration breaker.lastFailure now
  · obtain ⟨elapsed, read, longer⟩ := (passed_iff pos).mp passed
    simp only [read, longer, passed, if_true, if_false]
  · rw [if_neg passed]
    rw [passed_iff pos] at passed
    cases read : now.since breaker.lastFailure with
    | error => rfl
    | ok elapsed =>
      exact if_pos (Decidable.byContradiction fun longer => passed ⟨elapsed, read, longer⟩)

theorem Represents.execute (held : Represents threshold openDuration breaker circuit)
    (small : threshold < 2147483648) (pos : 0 ≤ openDuration.nanoseconds) (call : Call E) :
    ∃ after, breaker.execute call
        = some ((circuit.execute threshold openDuration call).1, after)
      ∧ Represents threshold openDuration after
        (circuit.execute threshold openDuration call).2 := by
  obtain ⟨natural, rfl, rfl, state⟩ := held
  obtain ⟨entry, outcome, failure⟩ := call
  cases circuit with
  | halfOpen => exact state.elim
  | closed failures =>
    obtain ⟨closed, counted, below⟩ := state
    have admitted : breaker.circuitAllows entry = (true, breaker) := by
      rw [CircuitBreaker.circuitAllows, closed]
    rw [CircuitBreaker.execute, admitted]
    cases outcome with
    | ok =>
      refine ⟨_, rfl, ?_⟩
      rw [CircuitBreaker.circuitSucceeded, if_neg (by simp [closed])]
      exact ⟨natural, rfl, rfl, closed, rfl, natural⟩
    | error =>
      have room : breaker.failures ≠ 2147483647 := by omega
      simp only [CircuitBreaker.circuitFailed, closed, room, reduceCtorEq, if_false, true_and,
        Option.map_some]
      refine ⟨_, rfl, ?_⟩
      simp only [Circuit.execute, Circuit.enter, Circuit.settle]
      by_cases last : (failures : ℤ) + 1 = breaker.threshold
      · rw [if_pos last, if_pos (by omega), CircuitBreaker.changeCircuitState, if_neg (by simp)]
        exact ⟨natural, rfl, rfl, rfl, rfl⟩
      · rw [if_neg last, if_neg (by omega)]
        exact ⟨natural, rfl, rfl, rfl, by simp [counted], by omega⟩
  | «open» since =>
    obtain ⟨opened, rfl⟩ := state
    have asked : breaker.circuitAllows entry = breaker.allowOpenCircuit entry := by
      rw [CircuitBreaker.circuitAllows, opened]
    rw [CircuitBreaker.execute, asked, allowOpenCircuit_eq pos, Circuit.execute, Circuit.enter]
    by_cases passed : Passed breaker.openDuration breaker.lastFailure entry
    · rw [if_pos passed, if_pos passed, CircuitBreaker.changeCircuitState,
        if_neg (by simp [opened])]
      cases outcome with
      | ok => exact ⟨_, rfl, natural, rfl, rfl, rfl, rfl, natural⟩
      | error => exact ⟨_, rfl, natural, rfl, rfl, rfl, rfl⟩
    · rw [if_neg passed, if_neg passed]
      exact ⟨breaker, rfl, natural, rfl, rfl, opened, rfl⟩

theorem Represents.executeAll (held : Represents threshold openDuration breaker circuit)
    (small : threshold < 2147483648) (pos : 0 ≤ openDuration.nanoseconds)
    (calls : List (Call E)) :
    ∃ after, breaker.executeAll calls
        = some ((circuit.executeAll threshold openDuration calls).1, after)
      ∧ Represents threshold openDuration after
        (circuit.executeAll threshold openDuration calls).2 := by
  induction calls generalizing breaker circuit with
  | nil => exact ⟨breaker, rfl, held⟩
  | cons call calls ih =>
    obtain ⟨_, done, held⟩ := held.execute small pos call
    obtain ⟨after, done', held⟩ := ih held
    refine ⟨after, ?_, held⟩
    simp only [CircuitBreaker.executeAll, done, Option.bind_eq_bind, Option.bind_some, done']
    rfl

end

/-- **The circuit breaker is as specified**, whatever the clock does and whatever callback is in
place, and its count never overflows. -/
theorem circuit_specified {threshold : ℤ} {openDuration : Duration} {now : MonotonicInstant}
    {breaker : CircuitBreaker F} (made : newCircuitBreaker threshold openDuration now = .ok breaker)
    (small : threshold < 2147483648) (callback : Option F) (calls : List (Call E)) :
    ∃ after, { breaker with onStateChange := callback }.executeAll calls
        = some (((Circuit.closed 0).executeAll threshold openDuration calls).1, after)
      ∧ Represents threshold openDuration after
        ((Circuit.closed 0).executeAll threshold openDuration calls).2 := by
  unfold newCircuitBreaker at made
  split at made
  · cases made
  split at made
  · cases made
  cases made
  have natural : 0 < threshold := by omega
  have fresh : Represents threshold openDuration
      (⟨.closed, 0, threshold, openDuration, now, false, callback, []⟩ : CircuitBreaker F)
      (.closed 0) :=
    ⟨natural, rfl, rfl, rfl, rfl, natural⟩
  exact fresh.executeAll small (by omega) calls

theorem circuit_specified_probe :
    ∃ breaker : CircuitBreaker Unit, newCircuitBreaker 1 ⟨5⟩ ⟨0⟩ = .ok breaker
      ∧ ∃ after, breaker.executeAll [⟨⟨1⟩, .error 7, ⟨2⟩⟩, ⟨⟨7⟩, .ok (), ⟨7⟩⟩, ⟨⟨8⟩, .ok (), ⟨8⟩⟩]
          = some ([.error (.operation 7), .error .open, .ok ()], after)
        ∧ Represents 1 ⟨5⟩ after (.closed 0) := by
  have made : newCircuitBreaker 1 ⟨5⟩ ⟨0⟩
      = .ok (⟨.closed, 0, 1, ⟨5⟩, ⟨0⟩, false, none, []⟩ : CircuitBreaker Unit) := rfl
  exact ⟨_, made, circuit_specified made (by decide) none
    [⟨⟨1⟩, .error 7, ⟨2⟩⟩, ⟨⟨7⟩, .ok (), ⟨7⟩⟩, ⟨⟨8⟩, .ok (), ⟨8⟩⟩]⟩

/-- An open duration of the largest value has not passed after any time. -/
theorem circuit_specified_largest :
    ∃ breaker : CircuitBreaker Unit, newCircuitBreaker 1 maximumDuration ⟨0⟩ = .ok breaker
      ∧ maximumDuration.nanoseconds < (2 ^ 63 : ℤ) - 0
      ∧ ∃ after, breaker.executeAll [⟨⟨0⟩, .error 7, ⟨0⟩⟩, ⟨⟨2 ^ 63⟩, .ok (), ⟨2 ^ 63⟩⟩]
          = some ([.error (.operation 7), .error .open], after) :=
  ⟨_, rfl, by decide, _, rfl⟩

end FoundationLang.Resiliency
