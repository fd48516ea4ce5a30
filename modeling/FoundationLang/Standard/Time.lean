/-
**The package `std.time`: durations and the monotonic clock.**
-/

import Mathlib.Algebra.Group.Nat.Defs
import Mathlib.Order.Defs.PartialOrder

namespace FoundationLang.Standard

/-- `Error`. -/
inductive TimeError
  | beforeReference
  | outOfRange
deriving DecidableEq, Repr

/-- `Duration`; the nanoseconds are an `i64`. -/
structure Duration where
  nanoseconds : ℤ
deriving DecidableEq, Repr

/-- `MonotonicInstant`; the nanoseconds are a `u64`. -/
structure MonotonicInstant where
  nanoseconds : ℕ
deriving DecidableEq, Repr

/-- The longest duration. -/
def maximumDuration : Duration :=
  ⟨9223372036854775807⟩

/-- A duration, or the longest one. -/
def fromNanoseconds (value : ℕ) : Duration :=
  if value < 2 ^ 63 then ⟨value⟩ else maximumDuration

/-- The time between two readings. -/
def MonotonicInstant.since (self earlier : MonotonicInstant) : Except TimeError Duration :=
  if self.nanoseconds < earlier.nanoseconds then .error .beforeReference
  else .ok (fromNanoseconds (self.nanoseconds - earlier.nanoseconds))

instance : LE MonotonicInstant :=
  ⟨fun earlier later => earlier.nanoseconds ≤ later.nanoseconds⟩

theorem MonotonicInstant.le_iff {earlier later : MonotonicInstant} :
    earlier ≤ later ↔ earlier.nanoseconds ≤ later.nanoseconds :=
  Iff.rfl

instance : Preorder MonotonicInstant where
  le_refl now := Nat.le_refl now.nanoseconds
  le_trans _ _ _ := Nat.le_trans

instance (earlier later : MonotonicInstant) : Decidable (earlier ≤ later) :=
  inferInstanceAs (Decidable (earlier.nanoseconds ≤ later.nanoseconds))

theorem fromNanoseconds_mono {shorter longer : ℕ} (ordered : shorter ≤ longer) :
    (fromNanoseconds shorter).nanoseconds ≤ (fromNanoseconds longer).nanoseconds := by
  unfold fromNanoseconds maximumDuration
  by_cases small : shorter < 2 ^ 63
  · rw [if_pos small]
    by_cases small' : longer < 2 ^ 63
    · rw [if_pos small']
      exact Int.ofNat_le.mpr ordered
    · rw [if_neg small']
      dsimp only
      omega
  · exact Int.le_of_eq (by rw [if_neg small, if_neg (by omega)])

/-- **What has lasted a time has lasted it later on.** -/
theorem MonotonicInstant.since_mono {x y third : MonotonicInstant} {lasted : Duration}
    (later : y ≤ third) (measured : y.since x = .ok lasted) :
    ∃ longer, third.since x = .ok longer ∧ lasted.nanoseconds ≤ longer.nanoseconds := by
  rw [le_iff] at later
  unfold since at measured
  split at measured
  · cases measured
  · cases measured
    refine ⟨fromNanoseconds (third.nanoseconds - x.nanoseconds), ?_,
      fromNanoseconds_mono (by omega)⟩
    unfold since
    rw [if_neg (by omega)]

end FoundationLang.Standard
