/-
**The in-memory cache of `foundation.caching`.**

One task owns the entries and serves one request after the other. Before every request it throws the
expired entries away; an entry that is stored replaces the one under its key, and drives the oldest
one out if the cache is full without it.

Each function takes the list of entries apart, so that the order turns around. The channels between
the task and its clients only carry requests and replies. A key is copied where the source copies it;
here a text is a value.
-/

import FoundationLang.Standard.Collections
import FoundationLang.Standard.Text
import FoundationLang.Standard.Time
import Mathlib.Data.List.Nodup

namespace FoundationLang.Caching

open Library Outcome Standard List

/-- The errors of a client. -/
inductive Error
  | closed
  | cancelled
  | invalidTTL
deriving DecidableEq, Repr

/-- Why a cache is not built. -/
inductive ConfigurationError
  | invalidTTL
  | invalidMaxEntries
deriving DecidableEq, Repr

/-- `Policy`, with its defaults. -/
structure Policy where
  defaultTTL : Duration := ⟨0⟩
  maxEntries : ℤ := 10000

/-- A stored value; the sequence number is its age. -/
structure Entry (T : Type) where
  key : Text
  value : T
  written : MonotonicInstant
  ttl : ℤ
  sequence : ℕ

/-- `state`. A function that clones a value may stop the program. -/
structure State (T : Type) where
  entries : LinkedList (Entry T)
  cloneValue : T → Outcome Empty T
  defaultTTL : ℤ
  maxEntries : ℤ
  nextSequence : ℕ

/-- What a `set` carries. -/
structure SetPayload (T : Type) where
  key : Text
  value : T
  ttl : ℤ

/-- The requests of a client. -/
inductive Operation (T : Type)
  | get (key : Text)
  | set (value : SetPayload T)
  | invalidate (key : Text)
  | len

/-- The replies of the task. -/
inductive Response (T : Type)
  | done
  | maybeValue (value : Option T)
  | length (value : ℕ)

variable {T : Type}

/-! ### What is checked first -/

/-- An empty cache. -/
def newCache (cloneValue : T → Outcome Empty T) (defaultTTL maxEntries : ℤ) : State T where
  entries := .newList
  cloneValue := cloneValue
  defaultTTL := defaultTTL
  maxEntries := maxEntries
  nextSequence := 0

/-- A cache whose entries do not expire. -/
def new (cloneValue : T → Outcome Empty T) : State T :=
  newCache cloneValue 0 10000

/-- A cache under a policy, which is checked. -/
def newWith (cloneValue : T → Outcome Empty T) (policy : Policy) :
    Except ConfigurationError (State T) :=
  if policy.defaultTTL.nanoseconds < 0 then .error .invalidTTL
  else if policy.maxEntries < 0 then .error .invalidMaxEntries
  else .ok (newCache cloneValue policy.defaultTTL.nanoseconds policy.maxEntries)

/-- The request that `set` sends. -/
def setRequest (key : Text) (value : T) (ttl : ℤ) : Except Error (Operation T) :=
  if ttl < 0 then .error .invalidTTL else .ok (.set ⟨key, value, ttl⟩)

/-! ### The functions of the task -/

/-- The time of an entry is over. -/
def isExpired (item : Entry T) (now : MonotonicInstant) : Bool :=
  if item.ttl ≤ 0 then false
  else
    match now.since item.written with
    | .error _ => false
    | .ok elapsed => decide (elapsed.nanoseconds ≥ item.ttl)

/-- The time to live of an entry, its own or the default. -/
def effectiveTTL (current : State T) (ttl : ℤ) : ℤ :=
  if ttl > 0 then ttl else current.defaultTTL

/-- `purgeExpired`; `now` is its reading of the clock. -/
def purgeExpired (current : State T) (now : MonotonicInstant) : Outcome Empty (State T) := do
  let (_, restored) ← sweep (fun _ item => .ok ((), !isExpired item now)) current.entries.items ()
    .newList
  return { current with entries := restored }

/-- The cache without a key. -/
def removeKey (current : State T) (key : Text) : Outcome Empty (State T) := do
  let (_, restored) ← sweep (fun _ item => .ok ((), !decide (item.key = key)))
    current.entries.items () .newList
  return { current with entries := restored }

/-- One round of `getValue`. -/
def look (current : State T) (key : Text) (result : Option T) (item : Entry T) :
    Outcome Empty (Option T) :=
  if item.key = key then (current.cloneValue item.value).map some else .ok result

/-- A clone of the value under a key. -/
def getValue (current : State T) (key : Text) : Outcome Empty (Option T × State T) := do
  let (result, restored) ← sweep (fun result item => do return (← look current key result item, true))
    current.entries.items none .newList
  return (result, { current with entries := restored })

/-- One round of `oldestSequence`, with the number found so far and whether there is one. -/
def older (oldest : ℕ × Bool) (item : Entry T) : ℕ × Bool :=
  if !oldest.2 || item.sequence < oldest.1 then (item.sequence, true) else oldest

/-- The least sequence number of the entries. -/
def oldestSequence (current : State T) : Outcome Empty (ℕ × State T) := do
  let ((oldest, _), restored) ← sweep (fun oldest item => .ok (older oldest item, true))
    current.entries.items (0, false) .newList
  return (oldest, { current with entries := restored })

/-- One round of `evictOldest`. -/
def evict (oldest : ℕ) (removed : Bool) (item : Entry T) : Bool × Bool :=
  if !removed && item.sequence == oldest then (true, false) else (removed, true)

/-- The cache without its oldest entry. -/
def evictOldest (current : State T) : Outcome Empty (State T) := do
  let (oldest, current) ← oldestSequence current
  let (_, restored) ← sweep (fun removed item => .ok (evict oldest removed item))
    current.entries.items false .newList
  return { current with entries := restored }

/-- The check of `storeValue` for room. -/
def makeRoom (current : State T) : Outcome Empty (State T) :=
  if current.maxEntries > 0 ∧ (current.entries.len : ℤ) ≥ current.maxEntries then
    evictOldest current
  else .ok current

/-- `storeValue`; `written` is its reading of the clock. -/
def storeValue (current : State T) (key : Text) (value : T) (ttl : ℤ)
    (written : MonotonicInstant) : Outcome Empty (State T) := do
  let current ← removeKey current key
  let current ← makeRoom current
  let nextSequence ← checked (current.nextSequence + 1)
  let entries ← current.entries.pushFront ⟨key, value, written, ttl, current.nextSequence⟩
  return { current with entries, nextSequence }

/-- The request `set`. -/
def applySet (current : State T) (payload : SetPayload T) (written : MonotonicInstant) :
    Outcome Empty (Response T × State T) := do
  let selectedTTL := effectiveTTL current payload.ttl
  return (.done, ← storeValue current payload.key payload.value selectedTTL written)

/-- The request `invalidate`. -/
def applyInvalidate (current : State T) (key : Text) : Outcome Empty (Response T × State T) := do
  return (.done, ← removeKey current key)

/-- The `match` of `apply`. -/
def answer (current : State T) (written : MonotonicInstant) :
    Operation T → Outcome Empty (Response T × State T)
  | .get key => do
    let (value, current) ← getValue current key
    return (.maybeValue value, current)
  | .set value => applySet current value written
  | .invalidate key => applyInvalidate current key
  | .len => return (.length current.entries.len, current)

/-- **`apply`.** -/
def apply (current : State T) (now written : MonotonicInstant) (operation : Operation T) :
    Outcome Empty (Response T × State T) := do
  answer (← purgeExpired current now) written operation

/-! ### Clients -/

/-- What a client asks for, with the two readings of the clock that the task takes. -/
structure Timed (α : Type) where
  operation : α
  now : MonotonicInstant
  written : MonotonicInstant

/-- The request that a client sends. -/
def request : Operation T → Except Error (Operation T)
  | .set ⟨key, value, ttl⟩ => setRequest key value ttl
  | operation => .ok operation

/-- What the clients get, one after the other. -/
def run (current : State T) :
    List (Timed (Operation T)) → Outcome Empty (List (Except Error (Response T)))
  | [] => .ok []
  | ⟨operation, now, written⟩ :: rest =>
    match request operation with
    | .error error => do return .error error :: (← run current rest)
    | .ok operation => do
      let (reply, current) ← apply current now written operation
      return .ok reply :: (← run current rest)

/-- What the clients of a new cache get. -/
def session (cloneValue : T → Outcome Empty T) (policy : Policy)
    (calls : List (Timed (Operation T))) :
    Except ConfigurationError (Outcome Empty (List (Except Error (Response T)))) := do
  return run (← newWith cloneValue policy) calls

/-! ### What the functions do -/

theorem purgeExpired_ok (s : State T) (now : MonotonicInstant) :
    ∃ entries, purgeExpired s now = .ok { s with entries } ∧
      entries.items = (s.entries.items.filter (!isExpired · now)).reverse := by
  obtain ⟨entries, swept, xs⟩ := @sweep_filter _ _ Empty
    (fun _ item => ((), !isExpired item now)) (!isExpired · now) (fun _ _ => rfl) s.entries ()
  refine ⟨entries, ?_, xs⟩
  change (sweep (fun _ item => .ok ((), !isExpired item now)) _ _ _ >>= _) = _
  rw [swept]
  rfl

theorem removeKey_ok (s : State T) (key : Text) :
    ∃ entries, removeKey s key = .ok { s with entries } ∧
      entries.items = (s.entries.items.filter fun item => !decide (item.key = key)).reverse := by
  obtain ⟨entries, swept, xs⟩ := @sweep_filter _ _ Empty
    (fun _ item => ((), !decide (item.key = key))) (fun item => !decide (item.key = key))
    (fun _ _ => rfl) s.entries ()
  refine ⟨entries, ?_, xs⟩
  change (sweep (fun _ (item : Entry T) => .ok ((), !decide (item.key = key))) _ _ _ >>= _) = _
  rw [swept]
  rfl

theorem remembered_older (src : List (Entry T)) (oldest : ℕ) :
    ∃ least, remembered (fun oldest item => (older oldest item, true)) src (oldest, true) =
        (least, true) ∧ least ≤ oldest ∧ (∀ item ∈ src, least ≤ item.sequence) ∧
      (least = oldest ∨ ∃ item ∈ src, item.sequence = least) := by
  induction src generalizing oldest with
  | nil => exact ⟨oldest, rfl, Nat.le_refl _, (by intro _ mem; cases mem), .inl rfl⟩
  | cons x rest ih =>
    rw [remembered]
    by_cases smaller : x.sequence < oldest
    · have next : older (oldest, true) x = (x.sequence, true) := by
        unfold older
        rw [if_pos (by simpa using smaller)]
      obtain ⟨least, same, below, all, found⟩ := ih x.sequence
      refine ⟨least, by rw [next, same], by omega, ?_, .inr ?_⟩
      · intro item mem
        rcases mem_cons.mp mem with rfl | mem
        · exact below
        · exact all item mem
      · rcases found with rfl | ⟨item, mem, same⟩
        · exact ⟨x, mem_cons_self, rfl⟩
        · exact ⟨item, mem_cons_of_mem _ mem, same⟩
    · have next : older (oldest, true) x = (oldest, true) := by
        unfold older
        rw [if_neg (by simpa using smaller)]
      obtain ⟨least, same, below, all, found⟩ := ih oldest
      refine ⟨least, by rw [next, same], below, ?_, ?_⟩
      · intro item mem
        rcases mem_cons.mp mem with rfl | mem
        · omega
        · exact all item mem
      · rcases found with rfl | ⟨item, mem, same⟩
        · exact .inl rfl
        · exact .inr ⟨item, mem_cons_of_mem _ mem, same⟩

theorem oldestSequence_ok (s : State T) (some : s.entries.items ≠ []) :
    ∃ entries, ∃ oldest ∈ s.entries.items,
      oldestSequence s = .ok (oldest.sequence, { s with entries }) ∧
      (∀ item ∈ s.entries.items, oldest.sequence ≤ item.sequence) ∧
      entries.items = s.entries.items.reverse := by
  obtain ⟨entries, swept, order⟩ := sweep_reverse (ε := Empty)
    (fun oldest item => show (older oldest item, true).2 = _ from rfl) s.entries (0, false)
  obtain ⟨x, rest, same⟩ := exists_cons_of_ne_nil some
  obtain ⟨least, found, below, all, which⟩ := remembered_older rest x.sequence
  have least_eq : remembered (fun oldest item => (older oldest item, true)) s.entries.items
      (0, false) = (least, true) := by
    rw [same, remembered]
    exact found
  have ran : oldestSequence s = .ok (least, { s with entries }) := by
    change (sweep (fun oldest item => .ok (older oldest item, true)) _ _ _ >>= _) = _
    rw [swept, least_eq]
    rfl
  have least_le : ∀ item ∈ s.entries.items, least ≤ item.sequence := by
    intro item mem
    rw [same] at mem
    rcases mem_cons.mp mem with rfl | mem
    · exact below
    · exact all item mem
  rcases which with rfl | ⟨oldest, mem, rfl⟩
  · exact ⟨entries, x, by rw [same]; exact mem_cons_self, ran, least_le, order⟩
  · exact ⟨entries, oldest, by rw [same]; exact mem_cons_of_mem _ mem, ran, least_le, order⟩

theorem kept_evict_removed (oldest : ℕ) (source : List (Entry T)) :
    kept (evict oldest) source true = source := by
  induction source with
  | nil => rfl
  | cons x rest ih =>
    change x :: kept (evict oldest) rest true = _
    rw [ih]

theorem kept_evict (oldest : ℕ) (src : List (Entry T))
    (distinct : (src.map Entry.sequence).Nodup) :
    kept (evict oldest) src false = src.filter fun item => !decide (item.sequence = oldest) := by
  induction src with
  | nil => rfl
  | cons x rest ih =>
    rw [map_cons, nodup_cons] at distinct
    rw [kept]
    by_cases same : x.sequence = oldest
    · have gone : evict oldest false x = (true, false) := by
        unfold evict
        rw [if_pos (by simpa using same)]
      rw [gone, if_neg Bool.false_ne_true, kept_evict_removed,
        filter_cons_of_neg (by simpa using same)]
      symm
      rw [filter_eq_self]
      intro item mem
      simp only [Bool.not_eq_true', decide_eq_false_iff_not]
      intro same'
      exact distinct.1 (mem_map.mpr ⟨item, mem, same'.trans same.symm⟩)
    · have stays : evict oldest false x = (false, true) := by
        unfold evict
        rw [if_neg (by simpa using same)]
      rw [stays, if_pos rfl, ih distinct.2, filter_cons_of_pos (by simpa using same)]

theorem evictOldest_ok (s : State T) (some : s.entries.items ≠ [])
    (distinct : (s.entries.items.map Entry.sequence).Nodup) :
    ∃ entries, ∃ oldest ∈ s.entries.items,
      evictOldest s = .ok { s with entries } ∧
      (∀ item ∈ s.entries.items, oldest.sequence ≤ item.sequence) ∧
      entries.items =
        s.entries.items.filter fun item => !decide (item.sequence = oldest.sequence) := by
  obtain ⟨turned, oldest, mem, found, least, order⟩ := oldestSequence_ok s some
  obtain ⟨entries, swept, xs⟩ := sweep_ok (ε := Empty) (evict oldest.sequence) turned.items false
    .newList turned.bounded
  refine ⟨entries, oldest, mem, ?_, least, ?_⟩
  · unfold evictOldest
    rw [found]
    change (sweep (fun removed item => .ok (evict oldest.sequence removed item)) _ _ _ >>= _) = _
    rw [swept]
    rfl
  · have distinct' : (turned.items.map Entry.sequence).Nodup := by
      rw [order, map_reverse]
      exact nodup_reverse.mpr distinct
    rw [xs, kept_evict _ _ distinct', order, LinkedList.newList_items, append_nil,
      filter_reverse, reverse_reverse]

theorem foldlM_look_none (s : State T) (key : Text) (result : Option T)
    {src : List (Entry T)} (absent : key ∉ src.map Entry.key) :
    src.foldlM (look s key) result = .ok result := by
  induction src with
  | nil => rfl
  | cons x rest ih =>
    rw [map_cons, mem_cons, not_or] at absent
    have skipped : look s key result x = .ok result := by
      unfold look
      rw [if_neg (Ne.symm absent.1)]
    rw [foldlM_cons, skipped, ok_bind]
    exact ih absent.2

theorem foldlM_look (s : State T) (key : Text) {src : List (Entry T)}
    (distinct : (src.map Entry.key).Nodup) :
    src.foldlM (look s key) none =
      match src.find? fun item => item.key = key with
      | none => .ok none
      | some item => (s.cloneValue item.value).map some := by
  induction src with
  | nil => rfl
  | cons x rest ih =>
    rw [map_cons, nodup_cons] at distinct
    by_cases same : x.key = key
    · have found : look s key none x = (s.cloneValue x.value).map some := by
        unfold look
        rw [if_pos same]
      rw [foldlM_cons, found, List.find?_cons_of_pos (by simpa using same)]
      dsimp only
      rcases s.cloneValue x.value with _ | v
      · rfl
      · exact foldlM_look_none s key (some v) (same ▸ distinct.1)
    · have skipped : look s key none x = .ok none := by
        unfold look
        rw [if_neg same]
      rw [foldlM_cons, skipped, ok_bind, List.find?_cons_of_neg (by simpa using same)]
      exact ih distinct.2

theorem getValue_eq (s : State T) (key : Text)
    (distinct : (s.entries.items.map Entry.key).Nodup) :
    ∃ entries : LinkedList (Entry T), entries.items = s.entries.items.reverse ∧
      getValue s key =
        match s.entries.items.find? fun item => item.key = key with
        | none => .ok (none, { s with entries })
        | some item =>
          (s.cloneValue item.value).map fun v => (some v, { s with entries }) := by
  obtain ⟨entries, xs, swept⟩ := sweep_look (look s key) s.entries.items none
    .newList s.entries.bounded
  refine ⟨entries, by rw [xs, LinkedList.newList_items, append_nil], ?_⟩
  have turned : (s.entries.items.reverse.map Entry.key).Nodup := by
    rw [map_reverse]
    exact nodup_reverse.mpr distinct
  unfold getValue
  rw [swept, foldlM_look s key distinct]
  generalize s.entries.items.find? _ = found
  rcases found with _ | item
  · rfl
  · dsimp only
    rcases s.cloneValue item.value with stop | v <;> rfl

/-! ### What stays as it is -/

/-- The settings of a cache. -/
def State.settings (current : State T) : (T → Outcome Empty T) × ℤ × ℤ :=
  (current.cloneValue, current.defaultTTL, current.maxEntries)

variable {s t : State T}

theorem purgeExpired_settings {now : MonotonicInstant}
    (same : purgeExpired s now = .ok t) : t.settings = s.settings := by
  obtain ⟨⟨_, _⟩, _, same⟩ := bind_eq_ok.mp same
  cases same
  rfl

theorem removeKey_settings {key : Text} (same : removeKey s key = .ok t) :
    t.settings = s.settings := by
  obtain ⟨⟨_, _⟩, _, same⟩ := bind_eq_ok.mp same
  cases same
  rfl

theorem evictOldest_settings (same : evictOldest s = .ok t) :
    t.settings = s.settings := by
  obtain ⟨⟨_, _⟩, x, same⟩ := bind_eq_ok.mp same
  obtain ⟨⟨_, _⟩, _, x⟩ := bind_eq_ok.mp x
  cases x
  obtain ⟨⟨_, _⟩, _, same⟩ := bind_eq_ok.mp same
  cases same
  rfl

theorem makeRoom_settings (same : makeRoom s = .ok t) :
    t.settings = s.settings := by
  unfold makeRoom at same
  split at same
  · exact evictOldest_settings same
  · cases same
    rfl

theorem storeValue_settings {key : Text} {v : T} {ttl : ℤ} {out : MonotonicInstant}
    (same : storeValue s key v ttl out = .ok t) :
    t.settings = s.settings := by
  obtain ⟨_, x, same⟩ := bind_eq_ok.mp same
  obtain ⟨_, y, same⟩ := bind_eq_ok.mp same
  obtain ⟨_, _, same⟩ := bind_eq_ok.mp same
  obtain ⟨_, _, same⟩ := bind_eq_ok.mp same
  cases same
  exact (makeRoom_settings y).trans (removeKey_settings x)

theorem answer_settings {out : MonotonicInstant} {op : Operation T}
    {reply : Response T} (same : answer s out op = .ok (reply, t)) :
    t.settings = s.settings := by
  cases op with
  | get =>
    obtain ⟨⟨_, final⟩, looked, same⟩ := bind_eq_ok.mp same
    obtain ⟨⟨_, _⟩, _, looked⟩ := bind_eq_ok.mp looked
    cases looked
    cases same
    rfl
  | set =>
    obtain ⟨final, stored, same⟩ := bind_eq_ok.mp same
    cases same
    exact storeValue_settings stored
  | invalidate =>
    obtain ⟨_, removed, same⟩ := bind_eq_ok.mp same
    cases same
    exact removeKey_settings removed
  | len =>
    cases same
    rfl

theorem apply_settings {now out : MonotonicInstant} {op : Operation T}
    {reply : Response T} (same : apply s now out op = .ok (reply, t)) :
    t.settings = s.settings := by
  obtain ⟨_, purged, same⟩ := bind_eq_ok.mp same
  exact (answer_settings same).trans (purgeExpired_settings purged)

end FoundationLang.Caching
