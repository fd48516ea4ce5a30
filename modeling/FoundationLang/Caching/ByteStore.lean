/-
**The byte cache of `foundation.caching`.**

The in-memory backend for distributed caches. Its source is a second copy of the in-memory cache,
written for byte sequences; so is this module. The functions have the names of the source without
`Byte`, in a namespace of their own.
-/

import FoundationLang.Caching.Store
import FoundationLang.Standard.Bytes

namespace FoundationLang.Caching.Byte

open Library Outcome Standard

/-- `byteEntry`. -/
structure Entry where
  key : Text
  value : Bytes
  written : MonotonicInstant
  ttl : ℤ
  sequence : ℕ

/-- `byteState`. -/
structure State where
  entries : LinkedList Entry
  defaultTTL : ℤ
  maxEntries : ℤ
  nextSequence : ℕ

/-- `byteSetPayload`. -/
structure SetPayload where
  key : Text
  value : Bytes
  ttl : ℤ

/-- `byteOperation`. -/
inductive Operation
  | get (key : Text)
  | set (value : SetPayload)
  | delete (key : Text)
  | len

/-- `byteResponse`. -/
inductive Response
  | done
  | maybeValue (value : Option Bytes)
  | length (value : ℕ)

/-- An empty cache. -/
def newDistributedCache (defaultTTL maxEntries : ℤ) : State where
  entries := .newList
  defaultTTL := defaultTTL
  maxEntries := maxEntries
  nextSequence := 0

/-- A cache whose entries do not expire. -/
def newDistributed : State :=
  newDistributedCache 0 10000

/-- A cache under a policy, which is checked. -/
def newDistributedWith (policy : Policy) : Except ConfigurationError State :=
  if policy.defaultTTL.nanoseconds < 0 then .error .invalidTTL
  else if policy.maxEntries < 0 then .error .invalidMaxEntries
  else .ok (newDistributedCache policy.defaultTTL.nanoseconds policy.maxEntries)

/-- The request that `setBytes` sends. -/
def setRequest (key : Text) (value : Bytes) (ttl : ℤ) : Except Error Operation :=
  if ttl < 0 then .error .invalidTTL else .ok (.set ⟨key, value, ttl⟩)

/-- `isByteExpired`. -/
def isExpired (item : Entry) (now : MonotonicInstant) : Bool :=
  if item.ttl ≤ 0 then false
  else
    match now.since item.written with
    | .error _ => false
    | .ok elapsed => decide (elapsed.nanoseconds ≥ item.ttl)

/-- `byteEffectiveTTL`. -/
def effectiveTTL (current : State) (ttl : ℤ) : ℤ :=
  if ttl > 0 then ttl else current.defaultTTL

/-- The copy that a reader gets. -/
def copyBytes (value : Bytes) : Outcome Empty Bytes :=
  match value.copy with
  | .ok copied => .ok copied
  | .error (.err _) => panic (.message "caching byte invariant failed")
  | .error (.panic reason) => panic reason

/-- `purgeExpiredBytes`. -/
def purgeExpired (current : State) (now : MonotonicInstant) : Outcome Empty State := do
  let (_, restored) ← sweep (fun _ item => .ok ((), !isExpired item now)) current.entries.items ()
    .newList
  return { current with entries := restored }

/-- `removeByteKey`. -/
def removeKey (current : State) (key : Text) : Outcome Empty State := do
  let (_, restored) ← sweep (fun _ item => .ok ((), !decide (item.key = key)))
    current.entries.items () .newList
  return { current with entries := restored }

/-- One round of `getByteValue`. -/
def look (key : Text) (result : Option Bytes) (item : Entry) : Outcome Empty (Option Bytes) :=
  if item.key = key then (copyBytes item.value).map some else .ok result

/-- `getByteValue`. -/
def getValue (current : State) (key : Text) : Outcome Empty (Option Bytes × State) := do
  let (result, restored) ← sweep (fun result item => do return (← look key result item, true))
    current.entries.items none .newList
  return (result, { current with entries := restored })

/-- One round of `oldestByteSequence`. -/
def older (oldest : ℕ × Bool) (item : Entry) : ℕ × Bool :=
  if !oldest.2 || item.sequence < oldest.1 then (item.sequence, true) else oldest

/-- `oldestByteSequence`. -/
def oldestSequence (current : State) : Outcome Empty (ℕ × State) := do
  let ((oldest, _), restored) ← sweep (fun oldest item => .ok (older oldest item, true))
    current.entries.items (0, false) .newList
  return (oldest, { current with entries := restored })

/-- One round of `evictOldestByte`. -/
def evict (oldest : ℕ) (removed : Bool) (item : Entry) : Bool × Bool :=
  if !removed && item.sequence == oldest then (true, false) else (removed, true)

/-- `evictOldestByte`. -/
def evictOldest (current : State) : Outcome Empty State := do
  let (oldest, current) ← oldestSequence current
  let (_, restored) ← sweep (fun removed item => .ok (evict oldest removed item))
    current.entries.items false .newList
  return { current with entries := restored }

/-- The check of `storeByteValue` for room. -/
def makeRoom (current : State) : Outcome Empty State :=
  if current.maxEntries > 0 ∧ (current.entries.len : ℤ) ≥ current.maxEntries then
    evictOldest current
  else .ok current

/-- `storeByteValue`. -/
def storeValue (current : State) (key : Text) (value : Bytes) (ttl : ℤ)
    (written : MonotonicInstant) : Outcome Empty State := do
  let current ← removeKey current key
  let current ← makeRoom current
  let nextSequence ← checked (current.nextSequence + 1)
  let entries ← current.entries.pushFront ⟨key, value, written, ttl, current.nextSequence⟩
  return { current with entries, nextSequence }

/-- `applyByteSet`. -/
def applySet (current : State) (payload : SetPayload) (written : MonotonicInstant) :
    Outcome Empty (Response × State) := do
  let selectedTTL := effectiveTTL current payload.ttl
  return (.done, ← storeValue current payload.key payload.value selectedTTL written)

/-- `applyByteDelete`. -/
def applyDelete (current : State) (key : Text) : Outcome Empty (Response × State) := do
  return (.done, ← removeKey current key)

/-- The `match` of `applyBytes`. -/
def answer (current : State) (written : MonotonicInstant) :
    Operation → Outcome Empty (Response × State)
  | .get key => do
    let (value, current) ← getValue current key
    return (.maybeValue value, current)
  | .set value => applySet current value written
  | .delete key => applyDelete current key
  | .len => return (.length current.entries.len, current)

/-- **`applyBytes`.** -/
def apply (current : State) (now written : MonotonicInstant) (operation : Operation) :
    Outcome Empty (Response × State) := do
  answer (← purgeExpired current now) written operation

/-! ### Clients -/

/-- The request that a client sends. -/
def request : Operation → Except Error Operation
  | .set ⟨key, value, ttl⟩ => setRequest key value ttl
  | operation => .ok operation

/-- What the clients get, one after the other. -/
def run (current : State) :
    List (Timed Operation) → Outcome Empty (List (Except Error Response))
  | [] => .ok []
  | ⟨operation, now, written⟩ :: rest =>
    match request operation with
    | .error error => do return .error error :: (← run current rest)
    | .ok operation => do
      let (reply, current) ← apply current now written operation
      return .ok reply :: (← run current rest)

/-- What the clients of a new cache get. -/
def session (policy : Policy) (calls : List (Timed Operation)) :
    Except ConfigurationError (Outcome Empty (List (Except Error Response))) := do
  return run (← newDistributedWith policy) calls

end FoundationLang.Caching.Byte
