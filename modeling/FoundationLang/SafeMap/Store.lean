/-
**The task of `std.safemap`.**

One task owns the entries of a map and serves one request after the other. An entry carries the
bucket of its key, and keys are compared only inside a bucket. An entry that has expired stays until
a request comes upon it.

Each function takes the list of entries apart, so that the order turns around. The channels between
the task and its clients only carry requests and replies. The functions that a map is built from
return a value; the one of `Compute` may also stop the program.
-/

import FoundationLang.Standard.Collections
import FoundationLang.Standard.Time

namespace FoundationLang.SafeMap

open Library Outcome Standard

/-- A stored value and the bucket of its key. -/
structure Entry (K V : Type) where
  key : K
  value : V
  bucket : ℕ
  written : MonotonicInstant
  ttl : ℤ

/-- `state`. There is a bucket. -/
structure State (K V : Type) where
  entries : LinkedList (Entry K V)
  equal : K → K → Bool
  cloneKey : K → K
  cloneValue : V → V
  hash : K → ℕ
  shardCount : ℕ
  ttl : ℤ
  sharded : 0 < shardCount

/-- `operation`, but for `Keys`, `Values` and `Snapshot`. -/
inductive Operation (K V : Type)
  | set (key : K) (value : V)
  | get (key : K)
  | delete (key : K)
  | has (key : K)
  | len
  | clear
  | getOrSet (key : K) (value : V)
  | compute (key : K) (initial : V) (update : V → Outcome Empty V)
  | configureExpiry (nanoseconds : ℤ)

/-- The replies of the task. -/
inductive Response (V : Type)
  | done
  | maybeValue (value : Option V)
  | flag (value : Bool)
  | length (value : ℕ)
  | value (value : V)
deriving DecidableEq, Repr

variable {K V : Type}

/-! ### Buckets and expiry -/

/-- The bucket of a key. -/
def bucketFor (current : State K V) (key : K) : ℕ :=
  current.hash key % current.shardCount

/-- The entry is under the key; keys are compared inside a bucket only. -/
def keyMatches (current : State K V) (key : K) (item : Entry K V) : Bool :=
  if bucketFor current key != item.bucket then false else current.equal key item.key

/-- The time of an entry is over. -/
def expired (item : Entry K V) (now : MonotonicInstant) : Bool :=
  if item.ttl ≤ 0 then false
  else
    match now.since item.written with
    | .error _ => false
    | .ok elapsed => decide (elapsed.nanoseconds > item.ttl)

/-- One bucket for all keys. -/
def singleShard (_value : K) : ℕ :=
  0

/-- The loop of `normalizedShardCount`; `positive` lets it end. -/
def rounded (limit result : ℕ) (positive : 0 < result) : ℕ :=
  if result < limit then
    if result > 9223372036854775807 then result
    else rounded limit (result * 2) (Nat.mul_pos positive (by decide))
  else result
termination_by limit - result

/-- A power of two, 32 by default. -/
def normalizedShardCount (requested : ℤ) : ℕ :=
  if requested ≤ 0 then 32 else rounded requested.toNat 1 Nat.one_pos

/-- A duration that is not positive means no expiry. -/
def expiryNanoseconds (duration : Duration) : ℤ :=
  if duration.nanoseconds ≤ 0 then 0 else duration.nanoseconds

/-- The request of `WithExpiry`. -/
def withExpiry (duration : Duration) : Operation K V :=
  .configureExpiry (expiryNanoseconds duration)

/-! ### The functions of the task -/

/-- The loop of `setValue`. The clock is read once, as only one entry is written. -/
def restore (current : State K V) (key : K) (value : V) (written : MonotonicInstant) :
    List (Entry K V) → Bool → LinkedList (Entry K V) →
      Outcome Empty (Bool × LinkedList (Entry K V))
  | [], found, restored => .ok (found, restored)
  | item :: source, found, restored =>
    if !found && keyMatches current key item then do
      let restored ← restored.pushFront
        { item with value := current.cloneValue value, written, ttl := current.ttl }
      restore current key value written source true restored
    else do
      let restored ← restored.pushFront item
      restore current key value written source found restored

/-- The end of `setValue`. -/
def insertMissing (current : State K V) (key : K) (value : V) (written : MonotonicInstant)
    (found : Bool) (restored : LinkedList (Entry K V)) :
    Outcome Empty (LinkedList (Entry K V)) :=
  if found then .ok restored
  else restored.pushFront ⟨key, value, bucketFor current key, written, current.ttl⟩

/-- `setValue`; `written` is its reading of the clock. -/
def setValue (current : State K V) (key : K) (value : V) (written : MonotonicInstant) :
    Outcome Empty (State K V) := do
  let (found, restored) ← restore current key value written current.entries.items false .newList
  let entries ← insertMissing current key value written found restored
  return { current with entries }

/-- One round of `getValue`: what is found so far, and whether the entry stays. -/
def look (current : State K V) (key : K) (now : MonotonicInstant) (result : Option V)
    (item : Entry K V) : Option V × Bool :=
  if expired item now then (result, false)
  else if keyMatches current key item then (some (current.cloneValue item.value), true)
  else (result, true)

/-- `getValue`; `now` is its reading of the clock. -/
def getValue (current : State K V) (key : K) (now : MonotonicInstant) :
    Outcome Empty (Option V × State K V) := do
  let (result, restored) ← sweep (fun result item => .ok (look current key now result item))
    current.entries.items none .newList
  return (result, { current with entries := restored })

/-- One round of `deleteValue`: whether an entry was deleted, and whether this one stays. -/
def strike (current : State K V) (key : K) (now : MonotonicInstant) (deleted : Bool)
    (item : Entry K V) : Bool × Bool :=
  if expired item now || keyMatches current key item then (deleted || !expired item now, false)
  else (deleted, true)

/-- `deleteValue`; `now` is its reading of the clock. -/
def deleteValue (current : State K V) (key : K) (now : MonotonicInstant) :
    Outcome Empty (Bool × State K V) := do
  let (deleted, restored) ← sweep (fun deleted item => .ok (strike current key now deleted item))
    current.entries.items false .newList
  return (deleted, { current with entries := restored })

/-- There is a value under the key. -/
def hasValue (current : State K V) (key : K) (now : MonotonicInstant) :
    Outcome Empty (Bool × State K V) := do
  let (found, current) ← getValue current key now
  return (found.isSome, current)

/-- `removeExpired`; `now` is its reading of the clock. -/
def removeExpired (current : State K V) (now : MonotonicInstant) : Outcome Empty (State K V) := do
  let (_, restored) ← sweep (fun _ item => .ok ((), !expired item now)) current.entries.items ()
    .newList
  return { current with entries := restored }

/-- The number of entries that have not expired. -/
def currentLength (current : State K V) (now : MonotonicInstant) :
    Outcome Empty (ℕ × State K V) := do
  let current ← removeExpired current now
  return (current.entries.len, current)

/-- Stores the value of `GetOrSet`, and returns a clone. -/
def storeDefault (current : State K V) (key : K) (value : V) (written : MonotonicInstant) :
    Outcome Empty (V × State K V) := do
  let result := current.cloneValue value
  return (result, ← setValue current key value written)

/-- The value under a key, or the given one, which is stored then. -/
def getOrSetValue (current : State K V) (key : K) (value : V) (now written : MonotonicInstant) :
    Outcome Empty (V × State K V) := do
  let clonedKey := current.cloneKey key
  match ← getValue current clonedKey now with
  | (some found, current) => return (found, current)
  | (none, current) => storeDefault current key value written

/-- The value under a key, or the first one, updated and stored. -/
def computeValue (current : State K V) (key : K) (initial : V) (update : V → Outcome Empty V)
    (now written : MonotonicInstant) : Outcome Empty (V × State K V) := do
  let clonedKey := current.cloneKey key
  let (existing, current) ← getValue current clonedKey now
  let next ← update (existing.getD initial)
  let stored := current.cloneValue next
  return (next, ← setValue current key stored written)

/-- **`apply`.** -/
def apply (current : State K V) (now written : MonotonicInstant) :
    Operation K V → Outcome Empty (Response V × State K V)
  | .set key value => do return (.done, ← setValue current key value written)
  | .get key => do
    let (value, current) ← getValue current key now
    return (.maybeValue value, current)
  | .delete key => do
    let (value, current) ← deleteValue current key now
    return (.flag value, current)
  | .has key => do
    let (value, current) ← hasValue current key now
    return (.flag value, current)
  | .len => do
    let (value, current) ← currentLength current now
    return (.length value, current)
  | .clear => .ok (.done, { current with entries := .newList })
  | .getOrSet key value => do
    let (value, current) ← getOrSetValue current key value now written
    return (.value value, current)
  | .compute key initial update => do
    let (value, current) ← computeValue current key initial update now written
    return (.value value, current)
  | .configureExpiry nanoseconds => .ok (.done, { current with ttl := nanoseconds })

/-! ### Maps and their clients -/

/-- The state at the start. -/
def newMap (equal : K → K → Bool) (cloneKey : K → K) (cloneValue : V → V) (hash : K → ℕ)
    (shardCount : ℕ) (sharded : 0 < shardCount) : State K V where
  entries := .newList
  equal := equal
  cloneKey := cloneKey
  cloneValue := cloneValue
  hash := hash
  shardCount := shardCount
  ttl := 0
  sharded := sharded

/-- A map with one bucket. -/
def new (equal : K → K → Bool) (cloneKey : K → K) (cloneValue : V → V) : State K V :=
  newMap equal cloneKey cloneValue singleShard 1 Nat.one_pos

theorem rounded_pos (limit r : ℕ) (positive : 0 < r) :
    0 < rounded limit r positive := by
  induction r, positive using rounded.induct limit with
  | case1 r positive less large =>
    rw [rounded, if_pos less, if_pos large]
    exact positive
  | case2 r positive less small ih =>
    rw [rounded, if_pos less, if_neg small]
    exact ih
  | case3 r positive enough =>
    rw [rounded, if_neg enough]
    exact positive

theorem normalizedShardCount_pos (requested : ℤ) : 0 < normalizedShardCount requested := by
  unfold normalizedShardCount
  split
  · decide
  · exact rounded_pos _ _ _

/-- A map with many buckets. -/
def newSharded (equal : K → K → Bool) (cloneKey : K → K) (cloneValue : V → V) (hash : K → ℕ)
    (shardCount : ℤ) : State K V :=
  newMap equal cloneKey cloneValue hash (normalizedShardCount shardCount)
    (normalizedShardCount_pos shardCount)

/-- What a client asks for, with the two readings of the clock that the task takes. -/
structure Call (K V : Type) where
  operation : Operation K V
  now : MonotonicInstant
  written : MonotonicInstant

/-- What the clients get, one after the other. -/
def run (current : State K V) : List (Call K V) → Outcome Empty (List (Response V))
  | [] => .ok []
  | ⟨operation, now, written⟩ :: calls => do
    let (reply, current) ← apply current now written operation
    return reply :: (← run current calls)

end FoundationLang.SafeMap
