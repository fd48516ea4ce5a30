/-
**Tables with expiry times.**

What a map is for: a table from keys to values, each with the time until which it is there. A value
that is no longer there counts as absent (`Timed.read`).

* `Timed.Table`, `Timed.answer` — a table, and what a request gets from it.
-/

import FoundationLang.Library.Expiring
import FoundationLang.SafeMap.Store

namespace FoundationLang.SafeMap

open Library Outcome Standard

/-! ### Tables -/

/-- A value, and the last nanosecond at which it is there. -/
structure Stored (V : Type) where
  value : V
  expires : Option ℕ

/-- The value is still there. -/
def Stored.live {V : Type} (now : MonotonicInstant) (stored : Stored V) : Bool :=
  match stored.expires with
  | none => true
  | some last => decide (now.nanoseconds ≤ last)

/-- The end of a lifetime. One that is not positive has none, and neither has the greatest one,
which no two readings of the clock exceed. -/
def deadline (ttl : ℤ) (written : MonotonicInstant) : Option ℕ :=
  if 0 < ttl ∧ ttl < maximumDuration.nanoseconds then some (written.nanoseconds + ttl.toNat)
  else none

namespace Timed

/-- **A table with expiry times**, and the lifetime of what is written. -/
structure Table (κ V : Type) where
  entries : κ → Option (Stored V) := fun _ => none
  ttl : ℤ := 0

variable {κ V : Type}

/-- What is under a key at a time. -/
def read (table : Table κ V) (now : MonotonicInstant) (key : κ) : Option V :=
  ((table.entries key).filter (Stored.live now)).map Stored.value

open Classical in
/-- Change what is under a key. -/
noncomputable def put (table : Table κ V) (key : κ) (stored : Option (Stored V)) : Table κ V where
  entries := fun other => if other = key then stored else table.entries other
  ttl := table.ttl

/-- Write a value under a key. -/
noncomputable def write (table : Table κ V) (key : κ) (value : V) (written : MonotonicInstant) :
    Table κ V :=
  put table key (some ⟨value, deadline table.ttl written⟩)

/-- **What a request gets from a table**, and what it leaves. -/
noncomputable def answer (table : Table κ V) (now written : MonotonicInstant) :
    Operation κ V → Outcome Empty (Response V × Table κ V)
  | .set key value => .ok (.done, write table key value written)
  | .get key => .ok (.maybeValue (read table now key), table)
  | .delete key => .ok (.flag (read table now key).isSome, put table key none)
  | .has key => .ok (.flag (read table now key).isSome, table)
  | .len => .ok (.length (Set.ncard {key | (read table now key).isSome = true}), table)
  | .clear => .ok (.done, { table with entries := fun _ => none })
  | .getOrSet key value =>
    match read table now key with
    | some found => .ok (.value found, table)
    | none => .ok (.value value, write table key value written)
  | .compute key initial update => do
    let next ← update ((read table now key).getD initial)
    return (.value next, write table key next written)
  | .configureExpiry nanoseconds => .ok (.done, { table with ttl := nanoseconds })

/-- What the clients of a table get, one after the other. -/
noncomputable def answers (table : Table κ V) : List (Call κ V) → Outcome Empty (List (Response V))
  | [] => .ok []
  | ⟨operation, now, written⟩ :: calls => do
    let (reply, table) ← answer table now written operation
    return reply :: (← answers table calls)

end Timed

/-- The same request with other keys. -/
def Operation.mapKey {K κ V : Type} (convert : K → κ) : Operation K V → Operation κ V
  | .set key value => .set (convert key) value
  | .get key => .get (convert key)
  | .delete key => .delete (convert key)
  | .has key => .has (convert key)
  | .len => .len
  | .clear => .clear
  | .getOrSet key value => .getOrSet (convert key) value
  | .compute key initial update => .compute (convert key) initial update
  | .configureExpiry nanoseconds => .configureExpiry nanoseconds

/-- The same call with another key. -/
def Call.mapKey {K κ V : Type} (convert : K → κ) (call : Call K V) : Call κ V :=
  ⟨call.operation.mapKey convert, call.now, call.written⟩

/-- **The clock does not go back**, from call to call and inside each. -/
def Ordered {K V : Type} (clock : MonotonicInstant) : List (Call K V) → Prop
  | [] => True
  | call :: calls => clock ≤ call.now ∧ call.now ≤ call.written ∧ Ordered call.written calls

/-! ### Expiry -/

variable {V : Type}

theorem Stored.live_iff {stored : Stored V} {now : MonotonicInstant} :
    stored.live now = true ↔ ∀ last, stored.expires = some last → now.nanoseconds ≤ last := by
  unfold Stored.live
  rcases stored.expires with _ | last <;> simp

theorem live_fades : Fades (Stored.live : MonotonicInstant → Stored V → Bool) := by
  intro early late stored ordered alive
  rw [Stored.live_iff] at alive ⊢
  exact fun last same => Nat.le_trans ordered (alive last same)

end FoundationLang.SafeMap
