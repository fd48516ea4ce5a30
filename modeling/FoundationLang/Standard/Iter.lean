/-
**The iterator `range` of the prelude.**

* `range`, `Range.next` — the successor is computed before the element is returned.
-/

import FoundationLang.Library.Outcome
import Mathlib.Tactic.Ring

namespace FoundationLang.Standard

open Library Outcome

/-- The fields are values of `i32`. -/
structure Range where
  current : ℤ
  stop : ℤ
  step : ℤ

/-- An `i32`. -/
def InI32 (value : ℤ) : Prop :=
  -2 ^ 31 ≤ value ∧ value < 2 ^ 31

instance (value : ℤ) : Decidable (InI32 value) :=
  inferInstanceAs (Decidable (_ ∧ _))

/-- `+` on `i32`. -/
def addI32 (left right : ℤ) : Outcome Empty ℤ :=
  if InI32 (left + right) then .ok (left + right) else panic .overflow

/-- The end of `Range.Next`. -/
def Range.advance (range : Range) : Outcome Empty (Option ℤ × Range) := do
  let current ← addI32 range.current range.step
  .ok (some range.current, { range with current := current })

/-- `Range.Next`, with the range that it leaves. -/
def Range.next (range : Range) : Outcome Empty (Option ℤ × Range) :=
  if 0 < range.step then
    if range.stop ≤ range.current then .ok (none, range) else range.advance
  else if range.current ≤ range.stop then .ok (none, range) else range.advance

/-- A range of numbers; a step of zero is a panic. -/
def range (start stop step : ℤ) : Outcome Empty Range :=
  if step = 0 then panic (.message "range step cannot be zero") else .ok ⟨start, stop, step⟩

/-- What a number of calls of `Next` returns. -/
def Range.calls : ℕ → Range → Outcome Empty (List (Option ℤ))
  | 0, _ => .ok []
  | count + 1, range => do
    let (answer, range) ← range.next
    .ok (answer :: (← range.calls count))

/-! ### The elements -/

section

variable (start stop step : ℤ)

/-- How far a value lies before the stop, in the direction of the step. -/
def distance : ℕ :=
  if 0 < step then (stop - start).toNat else (start - stop).toNat

/-- The elements, as long as they lie before the stop. -/
def progression (index : ℕ) : Option ℤ :=
  if 0 < distance (start + index * step) stop step then some (start + index * step) else none

/-- The first value that does not lie before the stop. -/
def ending : ℤ :=
  start + ((distance start stop step + step.natAbs - 1) / step.natAbs : ℕ) * step

end

variable {start stop step : ℤ}

theorem distance_add :
    distance (start + step) stop step = distance start stop step - step.natAbs := by
  unfold distance
  split_ifs <;> omega

theorem next_eq : Range.next ⟨start, stop, step⟩ =
    if 0 < distance start stop step then Range.advance ⟨start, stop, step⟩
    else .ok (none, ⟨start, stop, step⟩) := by
  unfold Range.next distance
  dsimp only
  split_ifs <;> first | rfl | omega

theorem progression_succ (index : ℕ) :
    progression start stop step (index + 1) = progression (start + step) stop step index := by
  have same : start + ((index + 1 : ℕ) : ℤ) * step = start + step + index * step := by
    push_cast
    ring
  unfold progression
  rw [same]

theorem progression_past (past : distance start stop step = 0) (i : ℕ) :
    progression start stop step i = none := by
  induction i generalizing start with
  | zero => simp [progression, past]
  | succ i ih =>
    rw [progression_succ]
    exact ih (by rw [distance_add, past, Nat.zero_sub])

/-! ### The calls -/

section

variable (inside : InI32 start) (moves : step ≠ 0)

section

include moves

theorem ending_past (past : distance start stop step = 0) : ending start stop step = start := by
  have none := Nat.div_eq_of_lt (Nat.sub_lt (Int.natAbs_pos.mpr moves) Nat.one_pos)
  unfold ending
  rw [past, Nat.zero_add, none, Int.natCast_zero, Int.zero_mul, Int.add_zero]

theorem ending_add (before : 0 < distance start stop step) :
    ending (start + step) stop step = ending start stop step := by
  have unit : 0 < step.natAbs := Int.natAbs_pos.mpr moves
  unfold ending
  rw [distance_add]
  generalize distance start stop step = far at before
  have count : (far + step.natAbs - 1) / step.natAbs
      = (far - step.natAbs + step.natAbs - 1) / step.natAbs + 1 := by
    rw [← Nat.add_div_right _ unit]
    by_cases short : far ≤ step.natAbs
    · rw [Nat.div_eq_of_lt_le (k := 1) (by omega) (by omega),
        Nat.div_eq_of_lt_le (k := 1) (by omega) (by omega)]
    · congr 1
      omega
  rw [count]
  push_cast
  ring

include inside

theorem inI32_add (ends : InI32 (ending start stop step)) (before : 0 < distance start stop step) :
    InI32 (start + step) := by
  rw [← ending_add moves before] at ends
  unfold ending at ends
  generalize (distance (start + step) stop step + step.natAbs - 1) / step.natAbs = count at ends
  unfold InI32 at *
  rcases Int.lt_or_gt_of_ne moves with down | up
  · have := Int.mul_nonpos_of_nonneg_of_nonpos (Int.natCast_nonneg count) (Int.le_of_lt down)
    omega
  · have := Int.mul_nonneg (Int.natCast_nonneg count) (Int.le_of_lt up)
    omega

theorem calls_run (ends : InI32 (ending start stop step)) (n : ℕ) :
    Range.calls n ⟨start, stop, step⟩
      = .ok ((List.range n).map (progression start stop step)) := by
  induction n generalizing start with
  | zero => rfl
  | succ n ih =>
    have shifted : ∀ next, (List.range n).map (progression next stop step)
        = (List.range n).map (progression start stop step ∘ Nat.succ) →
        .ok (progression start stop step 0 :: (List.range n).map (progression next stop step))
          = (.ok ((List.range (n + 1)).map (progression start stop step)) :
            Outcome Empty (List (Option ℤ))) := by
      intro next same
      rw [same, List.range_succ_eq_map, List.map_cons, List.map_map]
    unfold Range.calls
    rw [next_eq]
    by_cases before : 0 < distance start stop step
    · have added := inI32_add inside moves ends before
      have first : progression start stop step 0 = some start := by simp [progression, before]
      rw [if_pos before, Range.advance, addI32, if_pos added, ← shifted _
        (List.map_congr_left fun index _ => (progression_succ index).symm), first]
      simp only [ok_bind, ih added ((ending_add moves before).symm ▸ ends)]
    · have past := Nat.eq_zero_of_not_pos before
      have last : ∀ index, progression start stop step index = none := progression_past past
      rw [if_neg before, ← shifted start (List.map_congr_left fun index _ => by
        rw [Function.comp_apply, last, last]), last]
      simp only [ok_bind, ih inside ends]

theorem calls_overflow (ends : ¬InI32 (ending start stop step)) :
    ∃ count, Range.calls count ⟨start, stop, step⟩ = panic .overflow := by
  induction far : distance start stop step using Nat.strong_induction_on generalizing start with
  | _ far ih =>
    have before : 0 < distance start stop step := by
      by_contra past
      rw [ending_past moves (Nat.eq_zero_of_not_pos past)] at ends
      exact ends inside
    by_cases added : InI32 (start + step)
    · have unit := Int.natAbs_pos.mpr moves
      rw [← ending_add moves before] at ends
      obtain ⟨count, stops⟩ := ih _ (by omega) added ends distance_add
      refine ⟨count + 1, ?_⟩
      rw [Range.calls, next_eq, if_pos before, Range.advance, addI32, if_pos added]
      simp only [ok_bind, stops]
      rfl
    · refine ⟨1, ?_⟩
      rw [Range.calls, next_eq, if_pos before, Range.advance, addI32, if_neg added]
      rfl

/-- **The calls of `Next` return the elements before the stop, then nothing, if and only if the first
value that does not lie before the stop is an `i32`**; otherwise one of the calls panics. -/
theorem calls_exact :
    (∀ count, (range start stop step >>= Range.calls count)
      = .ok ((List.range count).map (progression start stop step)))
      ↔ InI32 (ending start stop step) := by
  have built : range start stop step = .ok ⟨start, stop, step⟩ := if_neg moves
  rw [built]
  constructor
  · intro all
    by_contra ends
    obtain ⟨count, stops⟩ := calls_overflow inside moves ends
    cases stops.symm.trans (all count)
  · exact calls_run inside moves

end

end

theorem calls_exact_five : (range 1 6 2 >>= Range.calls 9)
    = .ok ((List.range 9).map (progression 1 6 2)) :=
  (calls_exact (by decide) (by decide)).mpr (by decide) 9

/-- The last element is 2147483646, and the addition behind it does not fit. -/
theorem calls_exact_largest : ¬∀ count, (range 0 2147483647 2 >>= Range.calls count)
    = .ok ((List.range count).map (progression 0 2147483647 2)) := by
  intro all
  have ends : ¬InI32 (ending 0 2147483647 2) := by decide
  obtain ⟨count, stops⟩ := calls_overflow (by decide) (by decide) ends
  cases stops.symm.trans (all count)

end FoundationLang.Standard
