/-
**The in-memory lock server of `foundation.lock`.**

One task owns the locks and the requests that wait for them, and serves one message after the other:
a request, or the passing of the time until the next lock expires. A key that becomes free in a
message is handed to the request that has waited longest, or to the next one if the reply can no
longer be delivered.

Whether a reply can be delivered, and what the clock says, is up to the surroundings of the server.
-/

import FoundationLang.Standard.Collections
import FoundationLang.Standard.Text
import FoundationLang.Standard.Time

namespace FoundationLang.Lock

open Library Outcome Standard List

/-- `grantRequest`; a reply channel is known by its number. -/
structure GrantRequest where
  key : Text
  ttl : ℤ
  sequence : ℕ
  reply : ℕ
deriving DecidableEq

/-- A request to release a lock. -/
structure ReleaseRequest where
  key : Text
  owner : ℕ
  reply : ℕ

/-- `operation`; `tryLock` is `Try`. -/
inductive Operation
  | acquire (value : GrantRequest)
  | tryLock (value : GrantRequest)
  | release (value : ReleaseRequest)

/-- What the task replies. -/
inductive Response
  | granted (owner : ℕ)
  | unavailable
  | released
deriving DecidableEq

/-- A lock with its owner and its times. -/
structure HeldLock where
  key : Text
  owner : ℕ
  acquired : MonotonicInstant
  ttl : ℤ

/-- The state of the task. -/
structure State where
  locks : LinkedList HeldLock
  waiters : LinkedList GrantRequest
  nextOwner : ℕ
  nextSequence : ℕ

/-- The state that `New` starts the task with. -/
def new : State :=
  ⟨.newList, .newList, 0, 0⟩

/-- **The surroundings of the server in one round**: whether a reply can be delivered, the reading of
the clock when a lock gets its owner, and the readings in `nextTimeout` and `collectExpired`. -/
structure Surroundings where
  delivers : ℕ → Response → Bool
  reading : ℕ → MonotonicInstant
  before : MonotonicInstant
  now : MonotonicInstant

/-! ### The locks -/

/-- A time to live that is not negative. -/
def normalizedTtl (ttl : ℤ) : ℤ :=
  if ttl ≤ 0 then 0 else ttl

/-- A new lock for a new owner. -/
def occupy (current : State) (key : Text) (ttl : ℤ) (reading : ℕ → MonotonicInstant) :
    Outcome Empty (ℕ × State) := do
  let owner ← checked (current.nextOwner + 1)
  let locks ← current.locks.pushFront ⟨key, owner, reading owner, normalizedTtl ttl⟩
  return (owner, { current with locks, nextOwner := owner })

/-- Some lock has the key. -/
def containsKey (current : State) (key : Text) : Outcome Empty (Bool × State) := do
  let (found, restored) ← sweep (fun found item =>
      .ok (if item.key = key then true else found, true)) current.locks.items false .newList
  return (found, { current with locks := restored })

/-- One round of `releaseOwner`. -/
def releases (key : Text) (owner : ℕ) (released : Option Text) (item : HeldLock) :
    Option Text × Bool :=
  if item.key = key ∧ item.owner = owner then (some item.key, false) else (released, true)

/-- The lock of an owner is removed; its key, if it was there. -/
def releaseOwner (current : State) (key : Text) (owner : ℕ) : Outcome Empty (Option Text × State) := do
  let (released, restored) ← sweep (fun released item => .ok (releases key owner released item))
    current.locks.items none .newList
  return (released, { current with locks := restored })

/-- The time of the lock is over. -/
def expired (item : HeldLock) (now : MonotonicInstant) : Bool :=
  if item.ttl ≤ 0 then false
  else
    match now.since item.acquired with
    | .error _ => false
    | .ok elapsed => decide (elapsed.nanoseconds ≥ item.ttl)

/-- One round of `collectExpired`. -/
def collects (now : MonotonicInstant) (promotions : LinkedList Text) (item : HeldLock) :
    Outcome Empty (LinkedList Text × Bool) :=
  if expired item now then do return (← promotions.pushFront item.key, false)
  else .ok (promotions, true)

/-- The expired locks are removed; their keys are to be promoted. -/
def collectExpired (current : State) (promotions : LinkedList Text) (now : MonotonicInstant) :
    Outcome Empty (LinkedList Text × State) := do
  let (promotions, restored) ← sweep (collects now) current.locks.items promotions .newList
  return (promotions, { current with locks := restored })

/-- The time that a lock has left. -/
def remainingNanoseconds (item : HeldLock) (now : MonotonicInstant) : ℕ :=
  if item.ttl ≤ 0 then 3600000000000
  else
    match now.since item.acquired with
    | .error _ => 1
    | .ok elapsed =>
      if elapsed.nanoseconds ≥ item.ttl then 1 else (item.ttl - elapsed.nanoseconds).toNat

/-- One round of `nextTimeout`. -/
def shorter (now : MonotonicInstant) (delay : ℕ) (item : HeldLock) : ℕ :=
  if remainingNanoseconds item now < delay then remainingNanoseconds item now else delay

/-- The time until the next lock expires. -/
def nextTimeout (current : State) (now : MonotonicInstant) : Outcome Empty (ℕ × State) := do
  let (delay, restored) ← sweep (fun delay item => .ok (shorter now delay item, true))
    current.locks.items 3600000000000 .newList
  return (delay, { current with locks := restored })

/-! ### The requests that wait -/

/-- One more waiter. -/
def queueWaiter (current : State) (key : Text) (ttl : ℤ) (reply : ℕ) :
    Outcome Empty (GrantRequest × State) := do
  let nextSequence ← checked (current.nextSequence + 1)
  let waiters ← current.waiters.pushFront ⟨key, ttl, nextSequence, reply⟩
  return (⟨key, ttl, nextSequence, reply⟩, { current with waiters, nextSequence })

/-- The smaller of two numbers. -/
def smallerSequence (current : Option ℕ) (candidate : ℕ) : Option ℕ :=
  match current with
  | none => some candidate
  | some value => if candidate < value then some candidate else some value

/-- One round of `oldestSequence`. -/
def older (key : Text) (found : Option ℕ) (item : GrantRequest) : Option ℕ :=
  if item.key = key then smallerSequence found item.sequence else found

/-- The number of the first waiter for a key. -/
def oldestSequence (current : State) (key : Text) : Outcome Empty (Option ℕ × State) := do
  let (found, restored) ← sweep (fun found item => .ok (older key found item, true))
    current.waiters.items none .newList
  return (found, { current with waiters := restored })

/-- One round of `takeWaiter`. -/
def takes (sequence : ℕ) (result : Option GrantRequest) (item : GrantRequest) :
    Option GrantRequest × Bool :=
  if item.sequence = sequence then (some item, false) else (result, true)

/-- The waiter with a number is removed. -/
def takeWaiter (current : State) (sequence : ℕ) : Outcome Empty (Option GrantRequest × State) := do
  let (result, restored) ← sweep (fun result item => .ok (takes sequence result item))
    current.waiters.items none .newList
  return (result, { current with waiters := restored })

/-- The first waiter for a key is removed. -/
def takeOldestWaiter (current : State) (key : Text) :
    Outcome Empty (Option GrantRequest × State) := do
  match ← oldestSequence current key with
  | (none, current) => return (none, current)
  | (some sequence, current) => takeWaiter current sequence

/-! ### Granting a key -/

/-- What the server does: a request comes to wait, a key is granted to a request that does not wait
or to one that did, a request is turned away, a release is answered. With a grant goes whether its
reply was delivered. -/
inductive Event
  | queued (request : GrantRequest)
  | granted (key : Text) (owner : ℕ) (delivered : Bool)
  | promoted (waiter : GrantRequest) (owner : ℕ) (delivered : Bool)
  | unavailable (reply : ℕ)
  | released (reply : ℕ)

/-- A grant: the key gets its owner, and is released again if the reply cannot be delivered. -/
def offer (surroundings : Surroundings) (current : State) (key : Text) (ttl : ℤ) (reply : ℕ) :
    Outcome Empty ((ℕ × Bool × Option Text) × State) := do
  let (owner, current) ← occupy current key ttl surroundings.reading
  if surroundings.delivers reply (.granted owner) then return ((owner, true, none), current)
  else do
    let (released, current) ← releaseOwner current key owner
    return ((owner, false, released), current)

theorem offer_waiters {surroundings : Surroundings} {s t : State} {key : Text} {ttl : ℤ}
    {reply : ℕ} {r : ℕ × Bool × Option Text}
    (offered : offer surroundings s key ttl reply = .ok (r, t)) :
    t.waiters = s.waiters := by
  obtain ⟨⟨_, _⟩, occupied, offered⟩ := bind_eq_ok.mp offered
  obtain ⟨_, _, occupied⟩ := bind_eq_ok.mp occupied
  obtain ⟨_, _, occupied⟩ := bind_eq_ok.mp occupied
  cases occupied
  dsimp only at offered
  split at offered
  · cases offered
    rfl
  · obtain ⟨⟨_, _⟩, releases, offered⟩ := bind_eq_ok.mp offered
    obtain ⟨⟨_, _⟩, _, releases⟩ := bind_eq_ok.mp releases
    cases releases
    cases offered
    rfl

/-! ### What the loops do -/

theorem containsKey_ok (s : State) (key : Text) :
    ∃ locks, containsKey s key =
        .ok (decide (key ∈ s.locks.items.map HeldLock.key), { s with locks }) ∧
      locks.items = s.locks.items.reverse := by
  obtain ⟨locks, swept, xs⟩ := @sweep_reverse _ _ Empty
    (fun found item => (if item.key = key then true else found, true)) (fun _ _ => rfl) s.locks
    false
  have found : ∀ (src : List HeldLock) (found : Bool),
      remembered (fun found (item : HeldLock) => (if item.key = key then true else found, true))
        src found = (found || decide (key ∈ src.map HeldLock.key)) := by
    intro src
    induction src with
    | nil => intro found; simp [remembered]
    | cons x rest ih =>
      intro found
      rw [remembered, ih, map_cons]
      by_cases same : x.key = key
      · simp [same]
      · simp [same, Ne.symm same]
  refine ⟨locks, ?_, xs⟩
  unfold containsKey
  rw [swept, found, Bool.false_or]
  rfl

/-- What `releaseOwner` looks for. -/
def matching (key : Text) (owner : ℕ) (item : HeldLock) : Bool :=
  decide (item.key = key ∧ item.owner = owner)

theorem remembered_releases (key : Text) (owner : ℕ) (src : List HeldLock)
    (released : Option Text) :
    remembered (releases key owner) src released =
      if src.any (matching key owner) then some key else released := by
  induction src generalizing released with
  | nil => rfl
  | cons x rest ih =>
    rw [remembered, ih, any_cons]
    by_cases same : x.key = key ∧ x.owner = owner
    · simp [releases, matching, same]
    · simp [releases, matching, same]

theorem releaseOwner_ok (s : State) (key : Text) (owner : ℕ) :
    ∃ locks, releaseOwner s key owner =
        .ok (if s.locks.items.any (matching key owner) then some key else none,
          { s with locks }) ∧
      locks.items = (s.locks.items.filter (!matching key owner ·)).reverse := by
  have decides : ∀ released item,
      (releases key owner released item).2 = !matching key owner item := by
    intro released item
    unfold releases matching
    by_cases same : item.key = key ∧ item.owner = owner
    · rw [if_pos same, decide_eq_true same]
      rfl
    · rw [if_neg same, decide_eq_false same]
      rfl
  obtain ⟨locks, swept, xs⟩ := sweep_filter (ε := Empty) _ decides s.locks none
  refine ⟨locks, ?_, xs⟩
  unfold releaseOwner
  rw [swept, remembered_releases]
  rfl

theorem nextTimeout_ok (s : State) (now : MonotonicInstant) :
    ∃ delay locks, nextTimeout s now = .ok (delay, { s with locks }) ∧
      locks.items = s.locks.items.reverse := by
  obtain ⟨locks, swept, xs⟩ := sweep_reverse (ε := Empty)
    (fun delay item => show (shorter now delay item, true).2 = _ from rfl) s.locks 3600000000000
  refine ⟨remembered (fun delay item => (shorter now delay item, true)) s.locks.items
    3600000000000, locks, ?_, xs⟩
  unfold nextTimeout
  rw [swept]
  rfl

theorem sweep_collects (now : MonotonicInstant) (src : List HeldLock)
    (promotions : LinkedList Text) (restored : LinkedList HeldLock)
    (small : src.length + restored.items.length < 2 ^ 31)
    (small' : src.length + promotions.items.length < 2 ^ 31) :
    ∃ promotions' restored', sweep (collects now) src promotions restored =
        .ok (promotions', restored') ∧
      promotions'.items =
        ((src.filter (expired · now)).map HeldLock.key).reverse ++ promotions.items ∧
      restored'.items = (src.filter (!expired · now)).reverse ++ restored.items := by
  induction src generalizing promotions restored with
  | nil => exact ⟨promotions, restored, rfl, rfl, rfl⟩
  | cons x rest ih =>
    rw [length_cons] at small small'
    rw [sweep]
    unfold collects
    cases late : expired x now with
    | true =>
      obtain ⟨longer, pushed, xs⟩ := promotions.pushFront_ok (ε := Empty) x.key (by omega)
      obtain ⟨promotions', restored', swept, same, same'⟩ := ih longer restored (by omega)
        (by rw [xs, length_cons]; omega)
      refine ⟨promotions', restored', ?_, ?_, ?_⟩
      · simp only [if_pos, pushed, ok_bind, pure, Except.pure]
        exact swept
      · rw [same, xs, filter_cons_of_pos (by exact late), map_cons, reverse_cons,
          append_assoc, singleton_append]
      · rw [same', filter_cons_of_neg (by simp [late])]
    | false =>
      obtain ⟨longer, pushed, xs⟩ := restored.pushFront_ok (ε := Empty) x (by omega)
      obtain ⟨promotions', restored', swept, same, same'⟩ := ih promotions longer
        (by rw [xs, length_cons]; omega) (by omega)
      refine ⟨promotions', restored', ?_, ?_, ?_⟩
      · simp only [Bool.false_eq_true, if_false, pushed]
        exact swept
      · rw [same, filter_cons_of_neg (by simp [late])]
      · rw [same', xs, filter_cons_of_pos (by simp [late]), reverse_cons,
          append_assoc, singleton_append]

theorem collectExpired_ok (s : State) (now : MonotonicInstant) :
    ∃ promotions locks, collectExpired s .newList now =
        .ok (promotions, { s with locks }) ∧
      promotions.items = ((s.locks.items.filter (expired · now)).map HeldLock.key).reverse ∧
      locks.items = (s.locks.items.filter (!expired · now)).reverse := by
  obtain ⟨promotions, locks, swept, same, same'⟩ := sweep_collects now s.locks.items .newList
    .newList s.locks.bounded s.locks.bounded
  refine ⟨promotions, locks, ?_, ?_, ?_⟩
  · unfold collectExpired
    rw [swept]
    rfl
  · rw [same, LinkedList.newList_items, append_nil]
  · rw [same', LinkedList.newList_items, append_nil]

theorem oldestSequence_ok (s : State) (key : Text) :
    ∃ waiters, oldestSequence s key =
        .ok (remembered (fun found item => (older key found item, true)) s.waiters.items none,
          { s with waiters }) ∧
      waiters.items = s.waiters.items.reverse := by
  obtain ⟨waiters, swept, xs⟩ := sweep_reverse (ε := Empty)
    (fun found item => show (older key found item, true).2 = _ from rfl) s.waiters none
  refine ⟨waiters, ?_, xs⟩
  unfold oldestSequence
  rw [swept]
  rfl

theorem takeWaiter_ok (s : State) (seq : ℕ) :
    ∃ waiters, takeWaiter s seq =
        .ok (remembered (takes seq) s.waiters.items none, { s with waiters }) ∧
      waiters.items =
        (s.waiters.items.filter fun item => !decide (item.sequence = seq)).reverse := by
  have decides : ∀ result item,
      (takes seq result item).2 = !decide (item.sequence = seq) := by
    intro result item
    unfold takes
    by_cases same : item.sequence = seq
    · rw [if_pos same, decide_eq_true same]
      rfl
    · rw [if_neg same, decide_eq_false same]
      rfl
  obtain ⟨waiters, swept, xs⟩ := sweep_filter (ε := Empty) _ decides s.waiters none
  refine ⟨waiters, ?_, xs⟩
  unfold takeWaiter
  rw [swept]
  rfl

theorem remembered_takes {seq : ℕ} {src : List GrantRequest}
    {r : Option GrantRequest} {waiter : GrantRequest}
    (taken : remembered (takes seq) src r = some waiter) :
    waiter ∈ src ∧ waiter.sequence = seq ∨ r = some waiter := by
  induction src generalizing r with
  | nil => exact .inr taken
  | cons x rest ih =>
    rw [remembered] at taken
    rcases ih taken with ⟨mem, same⟩ | same
    · exact .inl ⟨mem_cons_of_mem _ mem, same⟩
    · unfold takes at same
      split at same
      · rename_i found
        obtain rfl := Option.some.inj same
        exact .inl ⟨mem_cons_self, found⟩
      · exact .inr same

theorem takeOldestWaiter_fewer {s t : State} {key : Text} {waiter : GrantRequest}
    (taken : takeOldestWaiter s key = .ok (some waiter, t)) :
    t.waiters.items.length < s.waiters.items.length := by
  obtain ⟨turned, oldest, order⟩ := oldestSequence_ok s key
  unfold takeOldestWaiter at taken
  rw [oldest, ok_bind] at taken
  generalize remembered _ s.waiters.items none = found at taken
  rcases found with _ | sequence
  · cases taken
  · obtain ⟨waiters, takes, xs⟩ := takeWaiter_ok { s with waiters := turned } sequence
    dsimp only at taken
    rw [takes] at taken
    obtain ⟨same, rfl⟩ := Prod.mk.inj (Except.ok.inj taken)
    rcases remembered_takes same with ⟨mem, same'⟩ | same'
    · dsimp only at xs mem ⊢
      have turned' : s.waiters.items.reverse.length = s.waiters.items.length :=
        length_reverse
      rw [xs, length_reverse, ← turned', ← order]
      refine length_filter_lt_length_iff_exists.mpr ⟨waiter, mem, ?_⟩
      simp [same']
    · cases same'

/-! ### One round -/

/-- The inner loop: a key that is free is handed to the request that has waited longest and can still
be answered. -/
def promote (surroundings : Surroundings) (key : Text) (current : State) :
    Outcome Empty (List Event × State) :=
  match _taken : takeOldestWaiter current key with
  | .error stop => .error stop
  | .ok (none, after) => .ok ([], after)
  | .ok (some waiter, middle) =>
    match _offered : offer surroundings middle key waiter.ttl waiter.reply with
    | .error stop => .error stop
    | .ok ((owner, true, _), after) => .ok ([.promoted waiter owner true], after)
    | .ok ((owner, false, _), after) => do
      let (events, after) ← promote surroundings key after
      return (.promoted waiter owner false :: events, after)
termination_by current.waiters.items.length
decreasing_by
  rw [offer_waiters _offered]
  exact takeOldestWaiter_fewer _taken

/-- The loop over the keys that became free. -/
def promoteAll (surroundings : Surroundings) :
    List Text → State → Outcome Empty (List Event × State)
  | [], current => .ok ([], current)
  | key :: promotions, current => do
    let (events, current) ← promote surroundings key current
    let (more, current) ← promoteAll surroundings promotions current
    return (events ++ more, current)

/-- One more key to be promoted, if there is one. -/
def appendPromotion (promotions : LinkedList Text) :
    Option Text → Outcome Empty (LinkedList Text)
  | none => .ok promotions
  | some value => promotions.pushFront value

/-- A key that nobody holds is granted to a request that has just come. -/
def grant (surroundings : Surroundings) (current : State) (request : GrantRequest) :
    Outcome Empty ((List Event × LinkedList Text) × State) := do
  let ((owner, delivered, released), current) ←
    offer surroundings current request.key request.ttl request.reply
  let promotions ← appendPromotion .newList released
  return (([.granted request.key owner delivered], promotions), current)

/-- What the task does with a message. -/
def received (surroundings : Surroundings) (current : State) :
    Operation → Outcome Empty ((List Event × LinkedList Text) × State)
  | .acquire request => do
    match ← containsKey current request.key with
    | (true, current) => do
      let (waiter, current) ← queueWaiter current request.key request.ttl request.reply
      return (([.queued waiter], .newList), current)
    | (false, current) => grant surroundings current request
  | .tryLock request => do
    match ← containsKey current request.key with
    | (true, current) => return (([.unavailable request.reply], .newList), current)
    | (false, current) => grant surroundings current request
  | .release request => do
    let (released, current) ← releaseOwner current request.key request.owner
    let promotions ← appendPromotion .newList released
    return (([.released request.reply], promotions), current)

/-- What a round is about. -/
inductive Incoming
  | message (operation : Operation)
  | timeout

/-- The `select` of a round. -/
def selected (surroundings : Surroundings) (current : State) :
    Incoming → Outcome Empty ((List Event × LinkedList Text) × State)
  | .message operation => received surroundings current operation
  | .timeout => do
    let (promotions, current) ← collectExpired current .newList surroundings.now
    return (([], promotions), current)

/-- **One round of `serve`**: the events of the `select`, and those of the keys handed on. -/
def serve (surroundings : Surroundings) (current : State) (incoming : Incoming) :
    Outcome Empty (List Event × State) := do
  let (_, current) ← nextTimeout current surroundings.before
  let ((events, promotions), current) ← selected surroundings current incoming
  let (more, current) ← promoteAll surroundings promotions.items current
  return (events ++ more, current)

end FoundationLang.Lock
