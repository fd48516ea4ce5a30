/-
**Machines and their runs.**

A machine has a first state, labels that a state allows or not, and a step for each label that ends
in a state or fails.

* `Run` — the runs from the first state, with their labels, oldest first.
* `Run.invariant` — a property of the first state that every step keeps holds after every run.
-/

import Mathlib.Data.List.Basic

namespace FoundationLang.Library

open List

/-- A machine over states, labels and failures. -/
structure Machine (σ ι ε : Type) where
  initial : σ
  Allowed : σ → ι → Prop
  step : ι → σ → Except ε σ

namespace Machine

variable {σ ι ε : Type} (machine : Machine σ ι ε)

/-- **The runs of a machine**, by the labels of their steps. -/
inductive Run : List ι → σ → Prop
  | start : Run [] machine.initial
  | step {labels : List ι} {before after : σ} {label : ι} (run : Run labels before)
    (allowed : machine.Allowed before label) (taken : machine.step label before = .ok after) :
    Run (labels ++ [label]) after

/-- The machine whose steps also meet a condition. -/
def restrict (Meets : σ → ι → Prop) : Machine σ ι ε :=
  { machine with Allowed := fun state label => machine.Allowed state label ∧ Meets state label }

/-- The state after a list of labels, if each is allowed and none fails. -/
def follow [∀ state label, Decidable (machine.Allowed state label)] : List ι → σ → Option σ
  | [], state => some state
  | label :: rest, state =>
    if machine.Allowed state label then
      match machine.step label state with
      | .ok next => follow rest next
      | .error _ => none
    else none

variable {machine}

/-- **The rule of invariants.** -/
theorem Run.invariant (property : σ → Prop) (starts : property machine.initial)
    (steps : ∀ (before after : σ) (label : ι), property before → machine.Allowed before label →
      machine.step label before = .ok after → property after)
    {labels : List ι} {state : σ} (run : machine.Run labels state) : property state := by
  induction run with
  | start => exact starts
  | step run allowed taken ih => exact steps _ _ _ ih allowed taken

theorem Run.of_restrict {Meets : σ → ι → Prop} {labels : List ι} {state : σ}
    (run : (machine.restrict Meets).Run labels state) : machine.Run labels state := by
  induction run with
  | start => exact .start
  | step run allowed taken ih => exact .step ih allowed.1 taken

theorem Run.follow [∀ state label, Decidable (machine.Allowed state label)]
    {labels later : List ι} {state final : σ} (run : machine.Run labels state)
    (followed : machine.follow later state = some final) :
    machine.Run (labels ++ later) final := by
  induction later generalizing labels state with
  | nil =>
    rw [Machine.follow, Option.some.injEq] at followed
    rw [append_nil, ← followed]
    exact run
  | cons label rest ih =>
    rw [Machine.follow] at followed
    split at followed
    · rename_i allowed
      split at followed
      · rename_i next taken
        have longer := ih (run.step allowed taken) followed
        rwa [append_assoc, singleton_append] at longer
      · cases followed
    · cases followed

theorem Run.follow_restrict [∀ state label, Decidable (machine.Allowed state label)]
    {Meets : σ → ι → Prop} {labels later : List ι} {state final : σ}
    (run : (machine.restrict Meets).Run labels state)
    (meets : ∀ label ∈ later, ∀ state, Meets state label)
    (followed : machine.follow later state = some final) :
    (machine.restrict Meets).Run (labels ++ later) final := by
  induction later generalizing labels state with
  | nil =>
    rw [Machine.follow, Option.some.injEq] at followed
    rw [append_nil, ← followed]
    exact run
  | cons label rest ih =>
    rw [Machine.follow] at followed
    split at followed
    · rename_i allowed
      split at followed
      · rename_i next taken
        have longer := ih (run.step ⟨allowed, meets label mem_cons_self state⟩ taken)
          (fun later mem => meets later (mem_cons_of_mem _ mem)) followed
        rwa [append_assoc, singleton_append] at longer
      · cases followed
    · cases followed

end Machine

end FoundationLang.Library
