/-
**Results, errors and panics.**

A function of the modelled language returns a value or an error that its caller handles, or it stops
the program. The two ways of not returning a value are kept apart (`Stop`), so that a function that
never panics may still fail.

* `Outcome ε α` — what a function does; `Method σ ε α` — what a method does that writes to a value
  of type `σ`, which keeps what was written also when the method fails.
* `checked` — arithmetic on `u64`, which stops the program beyond the type.
* `Ensures` — no panic, and a postcondition of what is returned; a sequence of steps ensures what
  its steps ensure (`Ensures.bind`). With `EnsuresUnless` there is a panic in some cases only.
* `Method.Returns`, `Method.attempt` — what a call returns and leaves, as a relation and computed.
* `Method.Calls` — any number of calls of a method, with the rule for invariants.
-/

import Mathlib.Algebra.Group.Nat.Defs

namespace FoundationLang.Library

open List

/-- Why a program stops. -/
inductive Panic
  | overflow
  | message (text : String)
deriving DecidableEq, Repr

/-- An error that is returned, or a panic. -/
inductive Stop (ε : Type)
  | err (error : ε)
  | panic (reason : Panic)
deriving DecidableEq, Repr

/-- What a function returns. -/
abbrev Outcome (ε α : Type) : Type :=
  Except (Stop ε) α

/-- What a method returns, and the value it leaves. -/
abbrev Method (σ ε α : Type) : Type :=
  EStateM (Stop ε) σ α

theorem except_bind_eq_ok {ε α β : Type} {x : Except ε α} {next : α → Except ε β} {final : β} :
    (x >>= next) = .ok final ↔ ∃ v, x = .ok v ∧ next v = .ok final := by
  cases x with
  | error =>
    constructor
    · rintro ⟨⟩
    · rintro ⟨_, ⟨⟩, _⟩
  | ok v =>
    constructor
    · exact fun same => ⟨v, rfl, same⟩
    · rintro ⟨_, ⟨⟩, same⟩
      exact same

namespace Outcome

variable {ε δ α β : Type}
variable {result : Outcome ε α} {next : α → Outcome ε β}

/-- Return an error. -/
def err (error : ε) : Outcome ε α :=
  .error (.err error)

/-- Stop the program. -/
def panic (reason : Panic) : Outcome ε α :=
  .error (.panic reason)

/-- Return another error in the place of one (`else error { return .Err(..) }`). -/
def mapErr (convert : ε → δ) : Outcome ε α → Outcome δ α
  | .ok value => .ok value
  | .error (.err error) => .error (.err (convert error))
  | .error (.panic reason) => .error (.panic reason)

/-- `-` on `u64`. -/
def checkedSub (left right : ℕ) : Outcome ε ℕ :=
  if right ≤ left then .ok (left - right) else panic .overflow

/-- A value of `u64`. -/
def checked (value : ℕ) : Outcome ε ℕ :=
  if value < 2 ^ 64 then .ok value else panic .overflow

theorem checked_eq {value : ℕ} (small : value < 2 ^ 64) :
    (checked value : Outcome ε ℕ) = .ok value := by
  unfold checked
  rw [if_pos small]

theorem checked_eq_ok {v result : ℕ} :
    (checked v : Outcome ε ℕ) = .ok result ↔ v < 2 ^ 64 ∧ v = result := by
  unfold checked
  by_cases small : v < 2 ^ 64
  · rw [if_pos small]
    exact ⟨fun same => ⟨small, Except.ok.inj same⟩, fun same => congrArg _ same.2⟩
  · rw [if_neg small]
    constructor
    · rintro ⟨⟩
    · rintro ⟨small', _⟩
      exact absurd small' small

theorem checkedSub_eq {left right : ℕ} (ordered : right ≤ left) :
    (checkedSub left right : Outcome ε ℕ) = .ok (left - right) := by
  unfold checkedSub
  rw [if_pos ordered]

@[simp]
theorem ok_bind (value : α) (next : α → Outcome ε β) :
    ((.ok value : Outcome ε α) >>= next) = next value :=
  rfl

theorem checked_bind {value : ℕ} (small : value < 2 ^ 64) (next : ℕ → Outcome ε β) :
    ((checked value : Outcome ε ℕ) >>= next) = next value := by
  rw [checked_eq small, ok_bind]

theorem checkedSub_bind {left right : ℕ} (ordered : right ≤ left) (next : ℕ → Outcome ε β) :
    ((checkedSub left right : Outcome ε ℕ) >>= next) = next (left - right) := by
  rw [checkedSub_eq ordered, ok_bind]

@[simp]
theorem mapErr_ok (convert : ε → δ) (value : α) :
    Outcome.mapErr convert (.ok value : Outcome ε α) = .ok value :=
  rfl

theorem bind_eq_ok {final : β} :
    (result >>= next) = .ok final ↔ ∃ v, result = .ok v ∧ next v = .ok final :=
  except_bind_eq_ok

@[simp]
theorem mapErr_eq_ok {convert : ε → δ} {value : α} :
    result.mapErr convert = .ok value ↔ result = .ok value := by
  rcases result with (error | reason) | value <;> simp [mapErr]

/-! ### What is ensured -/

/-- The function does not panic, and `post` holds of the value it returns. -/
def Ensures (result : Outcome ε α) (post : α → Prop) : Prop :=
  (∀ reason, result ≠ .error (.panic reason)) ∧ ∀ value, result = .ok value → post value

variable {post : α → Prop} {later : β → Prop}

theorem ensures_ok {v : α} (holds : post v) : Ensures (.ok v : Outcome ε α) post := by
  refine ⟨?_, ?_⟩
  · rintro _ ⟨⟩
  · rintro _ ⟨⟩
    exact holds

theorem ensures_err (error : ε) : Ensures (err error : Outcome ε α) post := by
  refine ⟨?_, ?_⟩
  · rintro _ ⟨⟩
  · rintro _ ⟨⟩

/-- **Steps one after the other.** The next step may count on what the one before it ensures. -/
theorem Ensures.bind (x : Ensures result post)
    (second : ∀ v, post v → Ensures (next v) later) :
    Ensures (result >>= next) later := by
  rcases result with (error | reason) | v
  · exact ensures_err error
  · exact absurd rfl (x.1 reason)
  · exact second v (x.2 v rfl)

theorem Ensures.mono {weaker : α → Prop} (ensured : Ensures result post)
    (implies : ∀ v, post v → weaker v) : Ensures result weaker :=
  ⟨ensured.1, fun v same => implies v (ensured.2 v same)⟩

theorem Ensures.mapErr {convert : ε → δ} (ensured : Ensures result post) :
    Ensures (result.mapErr convert) post := by
  rcases result with (_ | reason) | v
  · exact ensures_err _
  · exact absurd rfl (ensured.1 reason)
  · exact ensures_ok (ensured.2 v rfl)

theorem ensures_checked {v : ℕ} (small : v < 2 ^ 64) :
    Ensures (checked v : Outcome ε ℕ) (· = v) := by
  rw [checked_eq small]
  exact ensures_ok rfl

theorem ensures_checkedSub {left right : ℕ} (ordered : right ≤ left) :
    Ensures (checkedSub left right : Outcome ε ℕ) (· = left - right) := by
  rw [checkedSub_eq ordered]
  exact ensures_ok rfl

theorem ensures_ite {condition : Prop} [Decidable condition] {yes no : Outcome ε α}
    (whenTrue : condition → Ensures yes post) (whenFalse : ¬condition → Ensures no post) :
    Ensures (if condition then yes else no) post := by
  by_cases holds : condition
  · rw [if_pos holds]
    exact whenTrue holds
  · rw [if_neg holds]
    exact whenFalse holds

/-! ### Panics -/

/-- The function stops the program. -/
def Panics (result : Outcome ε α) : Prop :=
  ∃ reason, result = .error (.panic reason)

instance (result : Outcome ε α) : Decidable (Panics result) :=
  match result with
  | .error (.panic reason) => .isTrue ⟨reason, rfl⟩
  | .error (.err _) => .isFalse (by rintro ⟨_, ⟨⟩⟩)
  | .ok _ => .isFalse (by rintro ⟨_, ⟨⟩⟩)

theorem Panics.bind (panics : Panics result) (next : α → Outcome ε β) :
    Panics (result >>= next) := by
  obtain ⟨reason, rfl⟩ := panics
  exact ⟨reason, rfl⟩

/-! ### What is ensured unless there is a panic -/

/-- The function panics only if `stuck`, and `post` holds of the value it returns. -/
def EnsuresUnless (stuck : Prop) (result : Outcome ε α) (post : α → Prop) : Prop :=
  (∀ reason, result = .error (.panic reason) → stuck) ∧ ∀ value, result = .ok value → post value

variable {stuck : Prop}

theorem Ensures.unless (ensured : Ensures result post) : EnsuresUnless stuck result post :=
  ⟨fun reason same => absurd same (ensured.1 reason), ensured.2⟩

theorem EnsuresUnless.bind (x : EnsuresUnless stuck result post)
    (second : ∀ v, post v → EnsuresUnless stuck (next v) later) :
    EnsuresUnless stuck (result >>= next) later := by
  rcases result with (error | reason) | v
  · exact (ensures_err error).unless
  · exact ⟨fun _ _ => x.1 reason rfl, by rintro _ ⟨⟩⟩
  · exact second v (x.2 v rfl)

theorem EnsuresUnless.mono {weaker : α → Prop} (ensured : EnsuresUnless stuck result post)
    (implies : ∀ v, post v → weaker v) : EnsuresUnless stuck result weaker :=
  ⟨ensured.1, fun v same => implies v (ensured.2 v same)⟩

end Outcome

/-! ### Methods -/

namespace Method

variable {σ ε δ α β : Type}
variable {call : Method σ ε α} {result : Except ε α} {before after : σ} {after' : σ}
  {results : List (Except ε α)}

/-- Return another error in the place of one. -/
def mapErr (convert : ε → δ) (call : Method σ ε α) : Method σ δ α := fun before =>
  match call before with
  | .ok value after => .ok value after
  | .error (.err error) after => .error (.err (convert error)) after
  | .error (.panic reason) after => .error (.panic reason) after

/-- The call returns a value or an error, and leaves the object in the state `after`. -/
inductive Returns (call : Method σ ε α) (before : σ) : Except ε α → σ → Prop
  | ok {value : α} {after : σ} (same : call before = .ok value after) :
      Returns call before (.ok value) after
  | err {error : ε} {after : σ} (same : call before = .error (.err error) after) :
      Returns call before (.error error) after

theorem Returns.unique {result' : Except ε α}
    (x : Returns call before result after) (y : Returns call before result' after') :
    result = result' ∧ after = after' := by
  cases x with
  | ok same =>
    cases y with
    | ok same' =>
      obtain ⟨rfl, rfl⟩ := EStateM.Result.ok.inj (same.symm.trans same')
      exact ⟨rfl, rfl⟩
    | err same' => cases same.symm.trans same'
  | err same =>
    cases y with
    | ok same' => cases same.symm.trans same'
    | err same' =>
      obtain ⟨⟨⟩, rfl⟩ := EStateM.Result.error.inj (same.symm.trans same')
      exact ⟨rfl, rfl⟩

theorem bind_ok {next : α → Method σ ε β} {v : α} (same : call before = .ok v after) :
    (call >>= next) before = next v after := by
  change EStateM.bind call next before = _
  unfold EStateM.bind
  rw [same]

theorem Returns.of_map {convert : α → β} {result : Except ε β}
    (returned : Returns (convert <$> call) before result after) :
    ∃ inner, Returns call before inner after ∧ result = inner.map convert := by
  have mapped : (convert <$> call) before = EStateM.map convert call before := rfl
  unfold EStateM.map at mapped
  rcases same : call before with ⟨_, m⟩ | ⟨_ | _, m⟩
  · rw [same] at mapped
    obtain ⟨rfl, rfl⟩ := returned.unique (.ok mapped)
    exact ⟨_, .ok same, rfl⟩
  · rw [same] at mapped
    obtain ⟨rfl, rfl⟩ := returned.unique (.err mapped)
    exact ⟨_, .err same, rfl⟩
  · rw [same] at mapped
    cases returned with
    | ok same' | err same' => cases mapped.symm.trans same'

theorem Returns.congr {call' : Method σ ε α} {before' : σ} (same : call before = call' before')
    (returned : Returns call before result after) : Returns call' before' result after := by
  cases returned with
  | ok same' => exact .ok (same.symm.trans same')
  | err same' => exact .err (same.symm.trans same')

theorem Returns.not_panic {middle : σ} {reason : Panic}
    (returned : Returns call before result after) :
    call before ≠ .error (.panic reason) middle := by
  intro same
  cases returned with
  | ok same' | err same' => cases same.symm.trans same'

/-- What a call returns and leaves. -/
def attempt (call : Method σ ε α) (before : σ) : Except Panic (Except ε α × σ) :=
  match call before with
  | .ok value after => .ok (.ok value, after)
  | .error (.err error) after => .ok (.error error, after)
  | .error (.panic reason) _ => .error reason

theorem attempt_eq_ok :
    call.attempt before = .ok (result, after) ↔ Returns call before result after := by
  unfold attempt
  constructor
  · intro taken
    rcases same : call before with ⟨_, m⟩ | ⟨_ | _, m⟩
    · rw [same] at taken
      cases taken
      exact .ok same
    · rw [same] at taken
      cases taken
      exact .err same
    · rw [same] at taken
      cases taken
  · rintro (same | same)
    · rw [same]
    · rw [same]

theorem attempt_bind {next : α → Method σ ε β} (before : σ) :
    (call >>= next).attempt before = (do
      let (result, m) ← call.attempt before
      match result with
      | .ok v => (next v).attempt m
      | .error error => .ok (.error error, m)) := by
  have computed : (call >>= next) before = EStateM.bind call next before := rfl
  unfold EStateM.bind at computed
  unfold attempt
  rw [computed]
  rcases call before with ⟨v, m⟩ | ⟨error | reason, m⟩ <;> rfl

theorem attempt_map {convert : α → β} (before : σ) :
    (convert <$> call).attempt before =
      (call.attempt before).map fun (result, after) => (result.map convert, after) := by
  have computed : (convert <$> call) before = EStateM.map convert call before := rfl
  unfold EStateM.map at computed
  unfold attempt
  rw [computed]
  rcases call before with ⟨v, m⟩ | ⟨error | reason, m⟩ <;> rfl

theorem attempt_mapErr {convert : ε → δ} (before : σ) :
    (call.mapErr convert).attempt before =
      (call.attempt before).map fun (result, after) => (result.mapError convert, after) := by
  unfold attempt mapErr
  rcases call before with ⟨v, m⟩ | ⟨error | reason, m⟩ <;> rfl

/-- The call stops the program. -/
def Panics (call : Method σ ε α) (before : σ) : Prop :=
  ∃ reason after, call before = .error (.panic reason) after

/-- Calls of one method one after the other, whatever they return. -/
inductive Calls (call : Method σ ε α) (before : σ) : List (Except ε α) → σ → Prop
  | none : Calls call before [] before
  | snoc {results : List (Except ε α)} {middle after : σ} {result : Except ε α}
      (earlier : Calls call before results middle) (last : Returns call middle result after) :
      Calls call before (results ++ [result]) after

/-- **What holds in the beginning and is kept by every call holds after any number of calls.** The
invariant may speak about what the calls returned. -/
theorem Calls.invariant (calls : Calls call before results after)
    (holds : List (Except ε α) → σ → Prop) (start : holds [] before)
    (kept : ∀ results m result after, holds results m →
      Returns call m result after → holds (results ++ [result]) after) :
    holds results after := by
  induction calls with
  | none => exact start
  | snoc earlier last ih => exact kept _ _ _ _ ih last

theorem Calls.cons {m : σ} (first : Returns call before result m)
    (calls : Calls call m results after) : Calls call before (result :: results) after := by
  induction calls with
  | none => exact Calls.none.snoc first
  | snoc earlier last ih => exact ih.snoc last

theorem Calls.unique {results' : List (Except ε α)}
    (calls : Calls call before results after) (calls' : Calls call before results' after')
    (same : results.length = results'.length) : results = results' ∧ after = after' := by
  induction calls generalizing results' after' with
  | none =>
    cases calls' with
    | none => exact ⟨rfl, rfl⟩
    | snoc => simp at same
  | snoc earlier last ih =>
    cases calls' with
    | none => simp at same
    | snoc earlier' last' =>
      simp only [length_append, length_singleton, Nat.add_right_cancel_iff] at same
      obtain ⟨rfl, rfl⟩ := ih earlier' same
      obtain ⟨rfl, rfl⟩ := last.unique last'
      exact ⟨rfl, rfl⟩

theorem Calls.of_append {later : List (Except ε α)}
    (calls : Calls call before (results ++ later) after) :
    ∃ middle, Calls call before results middle := by
  generalize whole : results ++ later = all at calls
  induction calls generalizing later with
  | none =>
    obtain ⟨rfl, rfl⟩ := append_eq_nil_iff.mp whole
    exact ⟨before, .none⟩
  | @snoc earlier middle after last calls returned ih =>
    rcases eq_nil_or_concat later with rfl | ⟨_, _, rfl⟩
    · rw [append_nil] at whole
      rw [whole]
      exact ⟨after, calls.snoc returned⟩
    · rw [concat_eq_append, ← append_assoc] at whole
      exact ih (append_inj' whole rfl).1

theorem Calls.not_shorter {vs values' : List α} {error error' : ε}
    (calls : Calls call before (vs.map .ok ++ [.error error]) after)
    (calls' : Calls call before (values'.map .ok ++ [.error error']) after') :
    ¬vs.length < values'.length := by
  intro less
  rw [← take_append_drop (vs.length + 1) values', map_append, append_assoc] at calls'
  obtain ⟨m, x⟩ := calls'.of_append
  obtain ⟨same, _⟩ := calls.unique x (by simp; omega)
  have mem : Except.error error ∈ (values'.take (vs.length + 1)).map Except.ok := by
    rw [← same]
    simp
  obtain ⟨_, _, ⟨⟩⟩ := mem_map.mp mem

/-- **Calls up to the first error return the same.** -/
theorem Calls.values_unique {vs values' : List α} {error error' : ε}
    (calls : Calls call before (vs.map .ok ++ [.error error]) after)
    (calls' : Calls call before (values'.map .ok ++ [.error error']) after') :
    vs = values' := by
  have least := calls.not_shorter calls'
  have least' := calls'.not_shorter calls
  obtain ⟨same, _⟩ := calls.unique calls' (by simp; omega)
  have init := (append_inj' same rfl).1
  exact (map_inj_right fun _ _ => Except.ok.inj).mp init

end Method

end FoundationLang.Library
