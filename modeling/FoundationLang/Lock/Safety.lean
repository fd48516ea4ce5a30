/-
**What holds of the lock server, whatever it is sent.**
-/

import FoundationLang.Library.Gate
import FoundationLang.Library.Machine
import FoundationLang.Lock.Server

namespace FoundationLang.Lock

open Library Outcome Standard List

variable {key : Text} {promotions : LinkedList Text} {incoming : Incoming}
  {locks : LinkedList HeldLock} {released : Option Text}

/-! ### What events say -/

/-- The owner token that is given. -/
def Event.token : Event → Option ℕ
  | .granted _ owner _ => some owner
  | .promoted _ owner _ => some owner
  | _ => none

/-- A grant that reached somebody. -/
def Event.reaches : Event → Option (Text × ℕ)
  | .granted key owner true => some (key, owner)
  | .promoted waiter owner true => some (waiter.key, owner)
  | _ => none

/-- A request that comes to wait for the key. -/
def Event.waits (key : Text) : Event → Option GrantRequest
  | .queued request => if request.key = key then some request else none
  | _ => none

/-- The request that is taken from the line for a key. -/
def Event.serves (key : Text) : Event → Option GrantRequest
  | .promoted waiter _ _ => if waiter.key = key then some waiter else none
  | _ => none

/-- The owner tokens that were given. -/
def tokens (log : List Event) : List ℕ :=
  log.filterMap Event.token

/-- The grants that reached somebody. -/
def delivered (log : List Event) : List (Text × ℕ) :=
  log.filterMap Event.reaches

/-- The requests that came to wait for the key. -/
def waited (key : Text) (log : List Event) : List GrantRequest :=
  log.filterMap (Event.waits key)

/-- The requests that were taken from the line for a key. -/
def served (key : Text) (log : List Event) : List GrantRequest :=
  log.filterMap (Event.serves key)

/-! ### Invariants -/

/-- The keys that somebody holds. -/
def State.keys (server : State) : List Text :=
  server.locks.items.map HeldLock.key

/-- **Every key has one holder.** The keys of `freed` have none at the moment. -/
structure Owned (server : State) (freed : List Text) (log : List Event) : Prop where
  distinct : server.keys.Nodup
  once : freed.Nodup
  apart : ∀ key ∈ freed, key ∉ server.keys
  blocked : ∀ waiter ∈ server.waiters.items, waiter.key ∈ server.keys ∨ waiter.key ∈ freed
  rising : (tokens log).Pairwise (· < ·)
  issued : ∀ owner ∈ tokens log, owner ≤ server.nextOwner
  known : ∀ lock ∈ server.locks.items, (lock.key, lock.owner) ∈ delivered log

/-- **Those who wait for a key are served in the order in which they came.** `line` has all requests
that wait, the oldest first. -/
structure Lined (server : State) (log : List Event) (line : List GrantRequest) : Prop where
  perm : server.waiters.items.Perm line
  aged : line.Pairwise fun older younger => older.sequence < younger.sequence
  order : ∀ key, InOrder (waited key log) [] (served key log)
    (line.filter fun waiter => waiter.key = key)
  numbered : ∀ key, ∀ request ∈ waited key log, request.sequence ≤ server.nextSequence

variable {server after : State} {freed : List Text} {log events : List Event} {ttl : ℤ}
  {line : List GrantRequest} {surroundings : Surroundings}

theorem mem_tokens_of_delivered {owner : ℕ} (mem : (key, owner) ∈ delivered log) :
    owner ∈ tokens log := by
  obtain ⟨event, mem, same⟩ := mem_filterMap.mp mem
  refine mem_filterMap.mpr ⟨event, mem, ?_⟩
  rcases event with _ | ⟨_, _, _ | _⟩ | ⟨_, _, _ | _⟩ | _ | _ <;> cases same <;> rfl

/-- The order of the locks does not matter. -/
theorem Owned.turn (owned : Owned server freed log) (perm : locks.items.Perm server.locks.items) :
    Owned { server with locks } freed log where
  distinct := (perm.map _).nodup_iff.mpr owned.distinct
  once := owned.once
  apart := fun key mem held => owned.apart key mem ((perm.map _).mem_iff.mp held)
  blocked := fun waiter mem =>
    (owned.blocked waiter mem).imp_left fun held => (perm.map _).mem_iff.mpr held
  rising := owned.rising
  issued := owned.issued
  known := fun lock mem => owned.known lock (perm.mem_iff.mp mem)

theorem Owned.owner_le (owned : Owned server freed log) {lock : HeldLock}
    (mem : lock ∈ server.locks.items) : lock.owner ≤ server.nextOwner :=
  owned.issued _ (mem_tokens_of_delivered (owned.known lock mem))

/-- The locks and tokens do not matter to the line, nor do events about them. -/
theorem Lined.frame (lined : Lined server log line) (sameWaiters : after.waiters = server.waiters)
    (sameSequence : after.nextSequence = server.nextSequence)
    (quiet : ∀ key, waited key events = [] ∧ served key events = []) :
    Lined after (log ++ events) line where
  perm := sameWaiters ▸ lined.perm
  aged := lined.aged
  order := fun key => by
    have same : waited key (log ++ events) = waited key log := by
      rw [waited, filterMap_append]
      change waited key log ++ waited key events = _
      rw [(quiet key).1, append_nil]
    have same' : served key (log ++ events) = served key log := by
      rw [served, filterMap_append]
      change served key log ++ served key events = _
      rw [(quiet key).2, append_nil]
    rw [same, same']
    exact lined.order key
  numbered := fun key request mem => by
    rw [waited, filterMap_append] at mem
    change request ∈ waited key log ++ waited key events at mem
    rw [(quiet key).1, append_nil] at mem
    rw [sameSequence]
    exact lined.numbered key request mem

/-! ### A grant -/

/-- **What a grant does.** If it reaches somebody there is one more lock, else the locks are as
before. -/
theorem offer_spec (older : ∀ lock ∈ server.locks.items, lock.owner ≤ server.nextOwner)
    {reply owner : ℕ} {reached : Bool}
    (offered : offer surroundings server key ttl reply = .ok ((owner, reached, released), after)) :
    owner = server.nextOwner + 1 ∧ after.nextOwner = owner ∧ after.waiters = server.waiters ∧
      after.nextSequence = server.nextSequence ∧
      match reached with
      | true => released = none ∧ ∃ lock : HeldLock, lock.key = key ∧ lock.owner = owner ∧
          after.locks.items = lock :: server.locks.items
      | false => released = some key ∧ after.locks.items.Perm server.locks.items := by
  obtain ⟨⟨owner', middle⟩, occupied, offered⟩ := bind_eq_ok.mp offered
  obtain ⟨token, counted, occupied⟩ := bind_eq_ok.mp occupied
  obtain ⟨locks, pushed, occupied⟩ := bind_eq_ok.mp occupied
  obtain ⟨_, rfl⟩ := checked_eq_ok.mp counted
  have items := LinkedList.pushFront_eq_ok pushed
  cases occupied
  dsimp only at offered
  split at offered
  · cases offered
    exact ⟨rfl, rfl, rfl, rfl, rfl, _, rfl, rfl, items⟩
  · obtain ⟨turned, releases, items'⟩ := releaseOwner_ok
      { server with locks, nextOwner := server.nextOwner + 1 } key (server.nextOwner + 1)
    rw [releases, ok_bind] at offered
    cases offered
    dsimp only at items' ⊢
    have others : ∀ lock ∈ server.locks.items, matching key (server.nextOwner + 1) lock = false := by
      intro lock mem
      have := older lock mem
      unfold matching
      exact decide_eq_false fun same => by omega
    have own : matching key (server.nextOwner + 1)
        ⟨key, server.nextOwner + 1, surroundings.reading (server.nextOwner + 1),
          normalizedTtl ttl⟩ = true := decide_eq_true ⟨rfl, rfl⟩
    refine ⟨rfl, rfl, rfl, rfl, ?_, ?_⟩
    · rw [items, any_cons, own, Bool.true_or, if_pos rfl]
    · rw [items', items, filter_cons_of_neg (by simp [own])]
      refine (reverse_perm _).trans (List.Perm.of_eq (filter_eq_self.mpr ?_))
      intro lock mem
      rw [others lock mem]
      rfl

theorem Owned.rising_append (owned : Owned server freed log) {event : Event}
    (token : event.token = some (server.nextOwner + 1)) :
    (tokens (log ++ [event])).Pairwise (· < ·) ∧
      ∀ owner ∈ tokens (log ++ [event]), owner ≤ server.nextOwner + 1 := by
  have same : tokens (log ++ [event]) = tokens log ++ [server.nextOwner + 1] := by
    rw [tokens, filterMap_append, filterMap_cons, token]
    rfl
  rw [same]
  refine ⟨pairwise_append.mpr ⟨owned.rising, pairwise_singleton _ _, ?_⟩, ?_⟩
  · intro owner mem last same
    rw [mem_singleton.mp same]
    have := owned.issued owner mem
    omega
  · intro owner mem
    rcases mem_append.mp mem with mem | mem
    · have := owned.issued owner mem
      omega
    · rw [mem_singleton.mp mem]

theorem delivered_append (log events : List Event) :
    delivered (log ++ events) = delivered log ++ delivered events :=
  filterMap_append ..

theorem Owned.quiet (owned : Owned server freed log) {event : Event} (quiet : event.token = none) :
    Owned server freed (log ++ [event]) := by
  have same : tokens (log ++ [event]) = tokens log := by
    rw [tokens, filterMap_append, filterMap_cons_none quiet]
    exact append_nil _
  refine { owned with rising := same ▸ owned.rising, issued := same ▸ owned.issued, known := ?_ }
  intro lock mem
  rw [delivered_append]
  exact mem_append_left _ (owned.known lock mem)

/-- **A free key is granted.** If the grant reaches somebody, the key has its holder, else it is free
as before. -/
theorem offer_owned {reply owner : ℕ} {reached : Bool} (event : Event)
    (owned : Owned server (key :: freed) log)
    (offered : offer surroundings server key ttl reply = .ok ((owner, reached, released), after))
    (token : event.token = some owner)
    (reaches : event.reaches = if reached then some (key, owner) else none) :
    (∀ lock ∈ server.locks.items, lock ∈ after.locks.items) ∧
      match reached with
      | true => Owned after freed (log ++ [event]) ∧
          ∃ lock ∈ after.locks.items, lock.key = key ∧ lock.owner = owner
      | false => released = some key ∧ Owned after (key :: freed) (log ++ [event]) := by
  obtain ⟨rfl, counted, waiters, _, spec⟩ := offer_spec (fun _ => owned.owner_le) offered
  obtain ⟨rising, _⟩ := owned.rising_append token
  have apart := owned.apart key mem_cons_self
  cases reached with
  | true =>
    obtain ⟨_, lock, same, same', items⟩ := spec
    have keys : after.keys = key :: server.keys := by
      rw [State.keys, items, map_cons, same]
      rfl
    refine ⟨fun y mem => by rw [items]; exact mem_cons_of_mem _ mem, ?_,
      lock, by rw [items]; exact mem_cons_self, same, same'⟩
    refine ⟨?_, (nodup_cons.mp owned.once).2, ?_, ?_, rising, by rwa [counted], ?_⟩
    · rw [keys]
      exact nodup_cons.mpr ⟨apart, owned.distinct⟩
    · intro y mem held
      rw [keys] at held
      rcases mem_cons.mp held with rfl | held
      · exact (nodup_cons.mp owned.once).1 mem
      · exact owned.apart y (mem_cons_of_mem _ mem) held
    · intro waiter mem
      rw [waiters] at mem
      rw [keys]
      rcases owned.blocked waiter mem with held | free
      · exact .inl (mem_cons_of_mem _ held)
      · rcases mem_cons.mp free with same | free
        · exact .inl (same ▸ mem_cons_self)
        · exact .inr free
    · intro y mem
      rw [items] at mem
      rw [delivered_append, mem_append]
      rcases mem_cons.mp mem with rfl | mem
      · refine .inr (mem_filterMap.mpr ⟨event, mem_singleton_self _, ?_⟩)
        rw [reaches, same, same']
        rfl
      · exact .inl (owned.known y mem)
  | false =>
    obtain ⟨same, perm⟩ := spec
    have held : ∀ y, y ∈ after.keys ↔ y ∈ server.keys := fun y =>
      (perm.map _).mem_iff
    refine ⟨fun y mem => perm.mem_iff.mpr mem, same, ?_⟩
    refine ⟨(perm.map _).nodup_iff.mpr owned.distinct, owned.once, ?_, ?_, rising,
      by rwa [counted], ?_⟩
    · intro y mem held'
      exact owned.apart y mem ((held y).mp held')
    · intro waiter mem
      rw [waiters] at mem
      exact (owned.blocked waiter mem).imp_left (held _).mpr
    · intro y mem
      rw [delivered_append, mem_append]
      exact .inl (owned.known y (perm.mem_iff.mp mem))

/-! ### Taking a request from the line -/

theorem remembered_older {least : ℕ} (src : List GrantRequest) (found : Option ℕ)
    (below : ∀ item ∈ src, item.key = key → least ≤ item.sequence)
    (below' : ∀ v, found = some v → least ≤ v)
    (which : found = some least ∨ ∃ item ∈ src, item.key = key ∧ item.sequence = least) :
    remembered (fun found item => (older key found item, true)) src found = some least := by
  induction src generalizing found with
  | nil =>
    rcases which with same | ⟨_, mem, _⟩
    · exact same
    · cases mem
  | cons x rest ih =>
    have below_rest : ∀ item ∈ rest, item.key = key → least ≤ item.sequence := fun item mem =>
      below item (mem_cons_of_mem _ mem)
    rw [remembered]
    unfold older
    by_cases same : x.key = key
    · rw [if_pos same]
      have below_first := below x mem_cons_self same
      rcases found with _ | v
      · refine ih _ below_rest ?_ ?_
        · rintro _ ⟨⟩
          exact below_first
        · rcases which with ⟨⟨⟩⟩ | ⟨item, mem, same', same''⟩
          rcases mem_cons.mp mem with rfl | mem
          · exact .inl (congrArg some same'')
          · exact .inr ⟨item, mem, same', same''⟩
      · have below_value := below' v rfl
        unfold smallerSequence
        dsimp only
        by_cases smaller : x.sequence < v
        · rw [if_pos smaller]
          refine ih _ below_rest ?_ ?_
          · rintro _ ⟨⟩
            exact below_first
          · rcases which with ⟨⟨⟩⟩ | ⟨item, mem, same', same''⟩
            · omega
            · rcases mem_cons.mp mem with rfl | mem
              · exact .inl (congrArg some same'')
              · exact .inr ⟨item, mem, same', same''⟩
        · rw [if_neg smaller]
          refine ih _ below_rest below' ?_
          rcases which with same' | ⟨item, mem, same', same''⟩
          · exact .inl same'
          · rcases mem_cons.mp mem with rfl | mem
            · exact .inl (congrArg some (by omega))
            · exact .inr ⟨item, mem, same', same''⟩
    · rw [if_neg same]
      refine ih _ below_rest below' (which.imp_right ?_)
      rintro ⟨item, mem, same', same''⟩
      rcases mem_cons.mp mem with rfl | mem
      · exact absurd same' same
      · exact ⟨item, mem, same', same''⟩

theorem remembered_older_none (src : List GrantRequest)
    (absent : ∀ item ∈ src, item.key ≠ key) :
    remembered (fun found item => (older key found item, true)) src none = none := by
  induction src with
  | nil => rfl
  | cons x rest ih =>
    have skipped : older key none x = none := if_neg (absent x mem_cons_self)
    rw [remembered, skipped]
    exact ih fun item mem => absent item (mem_cons_of_mem _ mem)

theorem remembered_takes_some {sequence : ℕ} (src : List GrantRequest)
    (r : Option GrantRequest)
    (which : r ≠ none ∨ ∃ item ∈ src, item.sequence = sequence) :
    remembered (takes sequence) src r ≠ none := by
  induction src generalizing r with
  | nil =>
    rcases which with some | ⟨_, mem, _⟩
    · exact some
    · cases mem
  | cons x rest ih =>
    rw [remembered]
    unfold takes
    by_cases same : x.sequence = sequence
    · rw [if_pos same]
      exact ih _ (.inl (Option.some_ne_none _))
    · rw [if_neg same]
      refine ih _ (which.imp_right ?_)
      rintro ⟨item, mem, same'⟩
      rcases mem_cons.mp mem with rfl | mem
      · exact absurd same' same
      · exact ⟨item, mem, same'⟩

theorem Lined.alone (lined : Lined server log line) {x second : GrantRequest}
    (mem : x ∈ line) (mem' : second ∈ line) (same : x.sequence = second.sequence) :
    x = second := by
  have distinct : (line.map GrantRequest.sequence).Nodup := by
    rw [List.Nodup, pairwise_map]
    exact lined.aged.imp fun smaller => Nat.ne_of_lt smaller
  exact inj_on_of_nodup_map distinct mem mem' same

/-- **The request that has waited longest is taken**, if there is one. -/
theorem takeOldestWaiter_spec (lined : Lined server log line) (key : Text) :
    ∃ waiters, takeOldestWaiter server key =
        .ok ((line.filter fun waiter => waiter.key = key).head?, { server with waiters }) ∧
      match line.filter fun waiter => waiter.key = key with
      | [] => waiters.items.Perm server.waiters.items
      | x :: _ => waiters.items.Perm
          (line.filter fun waiter => !decide (waiter.sequence = x.sequence)) := by
  obtain ⟨turned, oldest, order⟩ := oldestSequence_ok server key
  have waits : ∀ item ∈ server.waiters.items, item.key = key →
      item ∈ line.filter fun waiter => waiter.key = key := fun item mem same =>
    mem_filter.mpr ⟨lined.perm.mem_iff.mp mem, decide_eq_true same⟩
  have aged := lined.aged.filter fun waiter => decide (waiter.key = key)
  have inLine : ∀ item ∈ line.filter fun waiter => waiter.key = key, item ∈ line ∧ item.key = key :=
    fun item mem => ⟨(mem_filter.mp mem).1, of_decide_eq_true (mem_filter.mp mem).2⟩
  unfold takeOldestWaiter
  rw [oldest, ok_bind]
  generalize (line.filter fun waiter => waiter.key = key) = mine at waits aged inLine
  cases mine with
  | nil =>
    rw [remembered_older_none _ fun item mem same => by cases waits item mem same]
    exact ⟨turned, rfl, by rw [order]; exact reverse_perm _⟩
  | cons x =>
    rw [pairwise_cons] at aged
    obtain ⟨mem, same⟩ := inLine x mem_cons_self
    have least : ∀ item ∈ server.waiters.items, item.key = key →
        x.sequence ≤ item.sequence := by
      intro item mem' same'
      rcases mem_cons.mp (waits item mem' same') with rfl | mem'
      · exact Nat.le_refl _
      · exact Nat.le_of_lt (aged.1 item mem')
    have inside := lined.perm.mem_iff.mpr mem
    rw [remembered_older _ _ least (by rintro _ ⟨⟩) (.inr ⟨x, inside, same, rfl⟩)]
    obtain ⟨waiters, takes, items⟩ := takeWaiter_ok { server with waiters := turned } x.sequence
    dsimp only at takes items ⊢
    rw [order] at takes items
    refine ⟨waiters, ?_, ?_⟩
    · rw [takes]
      rcases taken : remembered (Lock.takes x.sequence) server.waiters.items.reverse none
        with _ | waiter
      · refine absurd taken (remembered_takes_some _ _ (.inr ⟨x, ?_, rfl⟩))
        exact mem_reverse.mpr inside
      · rcases remembered_takes taken with ⟨mem', same'⟩ | ⟨⟨⟩⟩
        have member'' := lined.perm.mem_iff.mp (mem_reverse.mp mem')
        obtain rfl := lined.alone member'' mem same'
        rfl
    · rw [items]
      exact (reverse_perm _).trans (((reverse_perm _).trans lined.perm).filter _)

theorem Lined.take (lined : Lined server log line) (after : State) (owner : ℕ) (reached : Bool)
    {x : GrantRequest} {rest : List GrantRequest}
    (mine : (line.filter fun waiter => waiter.key = key) = x :: rest)
    (perm : after.waiters.items.Perm
      (line.filter fun waiter => !decide (waiter.sequence = x.sequence)))
    (sameSequence : after.nextSequence = server.nextSequence) :
    Lined after (log ++ [.promoted x owner reached])
      (line.filter fun waiter => !decide (waiter.sequence = x.sequence)) := by
  have head := mem_filter.mp (mine ▸ mem_cons_self : x ∈ line.filter _)
  have key_eq : x.key = key := of_decide_eq_true head.2
  have waited_same : ∀ key, waited key (log ++ [.promoted x owner reached]) = waited key log := by
    intro key
    rw [waited, filterMap_append]
    exact append_nil _
  refine ⟨perm, lined.aged.filter _, ?_, ?_⟩
  · intro other
    have order := lined.order other
    rw [waited_same, served, filterMap_append]
    by_cases same : other = key
    · subst same
      have serves : List.filterMap (Event.serves other) [.promoted x owner reached] = [x] := by
        simp [Event.serves, key_eq]
      have others : ((line.filter fun waiter => !decide (waiter.sequence = x.sequence)).filter
          fun waiter => waiter.key = other) = rest := by
        have aged := lined.aged.filter fun waiter => decide (waiter.key = other)
        rw [mine, pairwise_cons] at aged
        rw [filter_filter]
        have both : (line.filter fun waiter => decide (waiter.key = other) &&
            !decide (waiter.sequence = x.sequence)) =
            (line.filter fun waiter => waiter.key = other).filter
              fun waiter => !decide (waiter.sequence = x.sequence) := by
          rw [filter_filter]
          exact filter_congr fun waiter _ => Bool.and_comm _ _
        rw [both, mine, filter_cons_of_neg (by simp), filter_eq_self]
        intro waiter mem
        have := aged.1 waiter mem
        simp only [Bool.not_eq_true', decide_eq_false_iff_not]
        omega
      rw [serves, others]
      rw [mine] at order
      exact order.serve
    · have serves : List.filterMap (Event.serves other) [.promoted x owner reached] = [] := by
        simp [Event.serves, key_eq, Ne.symm same]
      have others : ((line.filter fun waiter => !decide (waiter.sequence = x.sequence)).filter
          fun waiter => waiter.key = other) = line.filter fun waiter => waiter.key = other := by
        rw [filter_filter]
        refine filter_congr fun waiter mem => ?_
        by_cases same' : waiter.key = other
        · have unlike : waiter.sequence ≠ x.sequence := fun same'' =>
            same (same'.symm.trans ((congrArg _ (lined.alone mem head.1 same'')).trans key_eq))
          simp [same', unlike]
        · simp [same']
      rw [serves, others, append_nil]
      exact order
  · intro other request mem
    rw [waited_same] at mem
    rw [sameSequence]
    exact lined.numbered other request mem

/-! ### One round -/

/-- **What a part of a round keeps**: both invariants, the locks there are, and the grants that it
makes. -/
structure Safe (server after : State) (freed : List Text) (log events : List Event) : Prop where
  owned : Owned after freed (log ++ events)
  lined : ∃ line, Lined after (log ++ events) line
  held : ∀ lock ∈ server.locks.items, lock ∈ after.locks.items
  granted : ∀ grant ∈ delivered events, ∃ lock ∈ after.locks.items, (lock.key, lock.owner) = grant

theorem Safe.trans {m : State} {freed' : List Text} {more : List Event}
    (x : Safe server m freed' log events)
    (y : Safe m after freed (log ++ events) more) :
    Safe server after freed log (events ++ more) where
  owned := by
    rw [← append_assoc]
    exact y.owned
  lined := by
    rw [← append_assoc]
    exact y.lined
  held := fun lock mem => y.held lock (x.held lock mem)
  granted := fun grant mem => by
    rw [delivered_append, mem_append] at mem
    rcases mem with mem | mem
    · obtain ⟨lock, mem, same⟩ := x.granted grant mem
      exact ⟨lock, y.held lock mem, same⟩
    · exact y.granted grant mem

theorem Owned.drop (owned : Owned server (key :: freed) log) {waiters : LinkedList GrantRequest}
    (fewer : ∀ waiter ∈ waiters.items, waiter ∈ server.waiters.items ∧ waiter.key ≠ key) :
    Owned { server with waiters } freed log where
  distinct := owned.distinct
  once := (nodup_cons.mp owned.once).2
  apart := fun y mem => owned.apart y (mem_cons_of_mem _ mem)
  blocked := fun waiter mem => by
    obtain ⟨mem, unlike⟩ := fewer waiter mem
    refine (owned.blocked waiter mem).imp_right fun free => ?_
    rcases mem_cons.mp free with same | free
    · exact absurd same unlike
    · exact free
  rising := owned.rising
  issued := owned.issued
  known := owned.known

theorem Owned.fewer (owned : Owned server freed log) {waiters : LinkedList GrantRequest}
    (fewer : ∀ waiter ∈ waiters.items, waiter ∈ server.waiters.items) :
    Owned { server with waiters } freed log :=
  { owned with blocked := fun waiter mem => owned.blocked waiter (fewer waiter mem) }

/-- **A free key is handed on.** Every request that is taken for it is either granted, which ends the
loop, or could not be answered. -/
theorem promote_safe (owned : Owned server (key :: freed) log) (lined : Lined server log line)
    (promoted : promote surroundings key server = .ok (events, after)) :
    Safe server after freed log events := by
  induction count : server.waiters.items.length using Nat.strongRecOn
    generalizing server log line events with
  | ind size ih =>
    obtain ⟨waiters, takes, perm⟩ := takeOldestWaiter_spec lined key
    rw [promote] at promoted
    split at promoted
    · cases promoted
    · -- nobody waits
      rename_i final taken
      cases promoted
      rw [takes] at taken
      obtain ⟨none, rfl⟩ := Prod.mk.inj (Except.ok.inj taken)
      have mine := List.head?_eq_none_iff.mp none
      rw [mine] at perm
      rw [← append_nil log] at owned lined ⊢
      refine ⟨?_, ⟨line, ?_⟩, fun _ mem => mem, by intro _ mem; cases mem⟩
      · rw [append_nil, append_nil]
        rw [append_nil] at owned
        refine owned.drop fun waiter mem => ⟨perm.mem_iff.mp mem, fun same => ?_⟩
        have mem' : waiter ∈ line.filter fun waiter => waiter.key = key :=
          mem_filter.mpr
            ⟨lined.perm.mem_iff.mp (perm.mem_iff.mp mem), decide_eq_true same⟩
        rw [mine] at mem'
        cases mem'
      · rw [append_nil]
        exact { lined with perm := perm.trans lined.perm }
    · rename_i waiter middle taken
      have shorter := takeOldestWaiter_fewer taken
      rw [takes] at taken
      obtain ⟨some, rfl⟩ := Prod.mk.inj (Except.ok.inj taken)
      obtain ⟨rest, mine⟩ := List.head?_eq_some_iff.mp some
      have head := mem_filter.mp (mine ▸ mem_cons_self : waiter ∈ line.filter _)
      have key_eq : waiter.key = key := of_decide_eq_true head.2
      rw [mine] at perm
      dsimp only at perm
      have fewer : ∀ y ∈ waiters.items, y ∈ server.waiters.items := fun y mem =>
        lined.perm.mem_iff.mpr (mem_filter.mp (perm.mem_iff.mp mem)).1
      have owned' := owned.fewer fewer
      split at promoted
      · cases promoted
      · -- the grant reaches the request
        rename_i owner released final offered
        cases promoted
        obtain ⟨held, owned'', lock, mem, same, same'⟩ := offer_owned
          (.promoted waiter owner true) owned' offered rfl (by rw [← key_eq]; rfl)
        obtain ⟨_, _, sameWaiters, sameSequence, _⟩ := offer_spec (fun _ => owned'.owner_le) offered
        refine ⟨owned'', ⟨_, lined.take _ owner true mine (by rw [sameWaiters]; exact perm) sameSequence⟩,
          held, ?_⟩
        intro grant inside
        rw [mem_singleton.mp inside]
        exact ⟨lock, mem, by rw [same, same', key_eq]⟩
      · -- it does not: the key is free again
        rename_i owner released next offered
        obtain ⟨⟨more, _⟩, rests, promoted⟩ := bind_eq_ok.mp promoted
        cases promoted
        obtain ⟨held, _, owned''⟩ := offer_owned
          (.promoted waiter owner false) owned' offered rfl rfl
        obtain ⟨_, _, sameWaiters, sameSequence, _⟩ := offer_spec (fun _ => owned'.owner_le) offered
        have lined' := lined.take next owner false mine
          (by rw [sameWaiters]; exact perm) sameSequence
        have rest : Safe next after freed (log ++ [.promoted waiter owner false]) more :=
          ih next.waiters.items.length (by rw [sameWaiters, ← count]; exact shorter) owned''
            lined' rests rfl
        have first : Safe server next (key :: freed) log [.promoted waiter owner false] :=
          ⟨owned'', ⟨_, lined'⟩, held, by intro _ mem; cases mem⟩
        exact first.trans rest

theorem promoteAll_safe {promotions : List Text} (owned : Owned server promotions log)
    (lined : Lined server log line)
    (promoted : promoteAll surroundings promotions server = .ok (events, after)) :
    Safe server after [] log events := by
  induction promotions generalizing server log line events with
  | nil =>
    cases promoted
    exact ⟨by rwa [append_nil], ⟨line, by rwa [append_nil]⟩, fun _ mem => mem,
      by intro _ mem; cases mem⟩
  | cons key promotions ih =>
    obtain ⟨⟨_, _⟩, x, promoted⟩ := bind_eq_ok.mp promoted
    obtain ⟨⟨_, _⟩, rest, promoted⟩ := bind_eq_ok.mp promoted
    cases promoted
    have safe := promote_safe owned lined x
    obtain ⟨_, lined'⟩ := safe.lined
    exact safe.trans (ih safe.owned lined' rest)

/-- A lock ends by its own release, or when it has expired. -/
def Ended (surroundings : Surroundings) : Incoming → HeldLock → Prop
  | .message (.release request), lock => request.key = lock.key ∧ request.owner = lock.owner
  | .timeout, lock => expired lock surroundings.now = true
  | _, _ => False

/-- **What the `select` keeps.** Some locks may end in it. -/
structure Selected (surroundings : Surroundings) (incoming : Incoming) (server after : State)
    (freed : List Text) (log events : List Event) : Prop where
  owned : Owned after freed (log ++ events)
  lined : ∃ line, Lined after (log ++ events) line
  held : ∀ lock ∈ server.locks.items,
    lock ∈ after.locks.items ∨ Ended surroundings incoming lock
  granted : ∀ grant ∈ delivered events, ∃ lock ∈ after.locks.items, (lock.key, lock.owner) = grant

section

variable (owned : Owned server [] log)
include owned

theorem Owned.free (absent : key ∉ server.keys) :
    Owned server [key] log where
  distinct := owned.distinct
  once := nodup_singleton key
  apart := fun y mem => by rwa [mem_singleton.mp mem]
  blocked := fun waiter mem => .inl ((owned.blocked waiter mem).resolve_right (by rintro ⟨⟩))
  rising := owned.rising
  issued := owned.issued
  known := owned.known

theorem grant_safe {r : GrantRequest}
    (lined : Lined server log line) (absent : r.key ∉ server.keys)
    (granted : grant surroundings server r = .ok ((events, promotions), after)) :
    Selected surroundings incoming server after promotions.items log events := by
  obtain ⟨⟨⟨owner, reached, _⟩, _⟩, offered, granted⟩ := bind_eq_ok.mp granted
  obtain ⟨_, appended, granted⟩ := bind_eq_ok.mp granted
  cases granted
  have free := owned.free absent
  obtain ⟨_, _, sameWaiters, sameSequence, _⟩ := offer_spec (fun _ => free.owner_le) offered
  have lined' : Lined after (log ++ [.granted r.key owner reached]) line :=
    lined.frame sameWaiters sameSequence fun _ => ⟨rfl, rfl⟩
  cases reached with
  | true =>
    obtain ⟨held, owned', lock, mem, same, same'⟩ := offer_owned
      (.granted r.key owner true) free offered rfl rfl
    obtain ⟨_, _, _, _, rfl, _⟩ := offer_spec (fun _ => free.owner_le) offered
    cases appended
    refine ⟨owned', ⟨line, lined'⟩, fun lock mem => .inl (held lock mem), ?_⟩
    intro grant inside
    rw [mem_singleton.mp inside]
    exact ⟨lock, mem, by rw [same, same']⟩
  | false =>
    obtain ⟨held, rfl, owned'⟩ := offer_owned
      (.granted r.key owner false) free offered rfl rfl
    have items := LinkedList.pushFront_eq_ok appended
    rw [LinkedList.newList_items] at items
    rw [items]
    exact ⟨owned', ⟨line, lined'⟩, fun lock mem => .inl (held lock mem),
      by intro _ mem; cases mem⟩

theorem queueWaiter_safe {reply : ℕ} {waiter : GrantRequest}
    (lined : Lined server log line) (present : key ∈ server.keys)
    (queued : queueWaiter server key ttl reply = .ok (waiter, after)) :
    Selected surroundings incoming server after [] log [.queued waiter] := by
  obtain ⟨sequence, counted, queued⟩ := bind_eq_ok.mp queued
  obtain ⟨waiters, pushed, queued⟩ := bind_eq_ok.mp queued
  obtain ⟨_, rfl⟩ := checked_eq_ok.mp counted
  have items := LinkedList.pushFront_eq_ok pushed
  cases queued
  have numbers : ∀ y ∈ line, y.sequence ≤ server.nextSequence := by
    intro y mem
    refine lined.numbered y.key y ((lined.order y.key).mem_arrived ?_)
    exact mem_append_right _ (mem_filter.mpr ⟨mem, decide_eq_true rfl⟩)
  have quiet : Owned server [] (log ++ [.queued ⟨key, ttl, server.nextSequence + 1, reply⟩]) :=
    owned.quiet rfl
  refine ⟨⟨owned.distinct, owned.once, owned.apart, ?_, quiet.rising, quiet.issued, quiet.known⟩,
    ⟨line ++ [⟨key, ttl, server.nextSequence + 1, reply⟩], ⟨?_, ?_, ?_, ?_⟩⟩,
    fun _ mem => .inl mem, by intro _ mem; cases mem⟩
  · intro y mem
    dsimp only at mem
    rw [items] at mem
    rcases mem_cons.mp mem with rfl | mem
    · exact .inl present
    · exact owned.blocked y mem
  · dsimp only
    rw [items]
    exact (lined.perm.cons _).trans (perm_append_singleton _ _).symm
  · refine pairwise_append.mpr ⟨lined.aged, pairwise_singleton _ _, ?_⟩
    intro older mem younger mem'
    rw [mem_singleton.mp mem']
    exact Nat.lt_succ_of_le (numbers older mem)
  · intro y
    have order := lined.order y
    rw [waited, served, filterMap_append, filterMap_append, filter_append]
    by_cases same : key = y
    · subst same
      have arrives : List.filterMap (Event.waits key)
          [.queued ⟨key, ttl, server.nextSequence + 1, reply⟩] =
            [⟨key, ttl, server.nextSequence + 1, reply⟩] := by
        simp [Event.waits]
      rw [arrives, filter_singleton, decide_eq_true rfl]
      refine (append_nil (served key log)).symm ▸ order.arrive ?_ (by rintro ⟨⟩)
      intro mem
      have := lined.numbered key _ mem
      dsimp only at this
      omega
    · have arrives : List.filterMap (Event.waits y)
          [.queued ⟨key, ttl, server.nextSequence + 1, reply⟩] = [] := by
        simp [Event.waits, same]
      rw [arrives, filter_singleton, decide_eq_false same]
      change InOrder (waited y log ++ []) [] (served y log ++ []) (_ ++ [])
      rw [append_nil, append_nil, append_nil]
      exact order
  · intro y request mem
    rw [waited, filterMap_append, mem_append] at mem
    rcases mem with mem | mem
    · exact Nat.le_succ_of_le (lined.numbered y request mem)
    · obtain ⟨_, inside, same⟩ := mem_filterMap.mp mem
      rw [mem_singleton.mp inside] at same
      unfold Event.waits at same
      dsimp only at same
      split at same
      · cases same
        exact Nat.le_refl _
      · cases same

theorem Owned.release (ends : HeldLock → Bool) {released : List Text}
    (items : locks.items.Perm (server.locks.items.filter (!ends ·)))
    (keys : released.Perm ((server.locks.items.filter ends).map HeldLock.key)) :
    Owned { server with locks } released log := by
  have apart : ∀ x ∈ server.locks.items, ∀ second ∈ server.locks.items,
      x.key = second.key → x = second := fun x mem second mem' same =>
    inj_on_of_nodup_map owned.distinct mem mem' same
  refine ⟨?_, ?_, ?_, ?_, owned.rising, owned.issued, ?_⟩
  · exact (items.map _).nodup_iff.mpr (owned.distinct.sublist (filter_sublist.map _))
  · exact keys.nodup_iff.mpr (owned.distinct.sublist (filter_sublist.map _))
  · intro key mem held
    obtain ⟨lock, mem, same⟩ := mem_map.mp (keys.mem_iff.mp mem)
    obtain ⟨y, mem', same'⟩ := mem_map.mp held
    obtain ⟨mem, ended⟩ := mem_filter.mp mem
    obtain ⟨mem', stays⟩ := mem_filter.mp (items.mem_iff.mp mem')
    obtain rfl := apart lock mem y mem' (same.trans same'.symm)
    rw [ended] at stays
    cases stays
  · intro waiter mem
    have held := (owned.blocked waiter mem).resolve_right (by rintro ⟨⟩)
    obtain ⟨lock, mem, same⟩ := mem_map.mp held
    cases ended : ends lock with
    | true => exact .inr (keys.mem_iff.mpr
        (mem_map.mpr ⟨lock, mem_filter.mpr ⟨mem, ended⟩, same⟩))
    | false => exact .inl (mem_map.mpr
        ⟨lock, items.mem_iff.mpr (mem_filter.mpr ⟨mem, by rw [ended]; rfl⟩), same⟩)
  · intro lock mem
    exact owned.known lock (mem_filter.mp (items.mem_iff.mp mem)).1

theorem releaseOwner_safe {r : ReleaseRequest}
    (lined : Lined server log line)
    (releases : releaseOwner server r.key r.owner = .ok (released, after))
    (appended : appendPromotion .newList released = .ok promotions) :
    Selected surroundings (.message (.release r)) server after promotions.items log
      [.released r.reply] := by
  obtain ⟨locks, releases', items⟩ := releaseOwner_ok server r.key r.owner
  rw [releases'] at releases
  cases releases
  have lined' : Lined { server with locks } (log ++ [.released r.reply]) line :=
    lined.frame rfl rfl fun _ => ⟨rfl, rfl⟩
  have matched : ∀ lock ∈ server.locks.items,
      matching r.key r.owner lock = true → lock.key = r.key :=
    fun lock _ same => (of_decide_eq_true same).1
  have perm := items ▸ reverse_perm
    (server.locks.items.filter (!matching r.key r.owner ·))
  -- the key of the lock that ends, if there is one
  have keys : promotions.items.Perm
      ((server.locks.items.filter (matching r.key r.owner)).map HeldLock.key) := by
    rcases found : server.locks.items.filter (matching r.key r.owner) with _ | ⟨lock, rest⟩
    · have none : server.locks.items.any (matching r.key r.owner) = false := by
        rw [any_eq_false]
        exact filter_eq_nil_iff.mp found
      rw [none] at appended
      cases appended
      exact List.Perm.refl _
    · have inside : ∀ y ∈ lock :: rest, y ∈ server.locks.items ∧
          y.key = r.key := by
        intro y mem
        rw [← found] at mem
        obtain ⟨mem, same⟩ := mem_filter.mp mem
        exact ⟨mem, matched y mem same⟩
      have some : server.locks.items.any (matching r.key r.owner) = true := by
        have mem := mem_filter.mp (found ▸ mem_cons_self : lock ∈ List.filter _ _)
        exact any_eq_true.mpr ⟨lock, mem⟩
      have alone : ((lock :: rest).map HeldLock.key).Nodup :=
        found ▸ owned.distinct.sublist (filter_sublist.map _)
      rw [some] at appended
      have items' := LinkedList.pushFront_eq_ok appended
      rw [LinkedList.newList_items] at items'
      rw [items']
      cases rest with
      | nil => rw [map_singleton, (inside lock mem_cons_self).2]
      | cons y =>
        rw [map_cons, nodup_cons] at alone
        refine absurd (mem_map.mpr ⟨y, mem_cons_self, ?_⟩) alone.1
        rw [(inside y (mem_cons_of_mem _ mem_cons_self)).2,
          (inside lock mem_cons_self).2]
  refine ⟨(owned.release _ perm keys).quiet rfl, ⟨line, lined'⟩, ?_, by intro _ mem; cases mem⟩
  intro lock mem
  by_cases same : matching r.key r.owner lock = true
  · exact .inr ⟨(of_decide_eq_true same).1.symm, (of_decide_eq_true same).2.symm⟩
  · refine .inl (perm.mem_iff.mpr (mem_filter.mpr ⟨mem, ?_⟩))
    simp [same]

theorem collectExpired_safe (lined : Lined server log line)
    (collected : collectExpired server .newList surroundings.now = .ok (promotions, after)) :
    Selected surroundings .timeout server after promotions.items log [] := by
  obtain ⟨_, _, collected', keys, items⟩ := collectExpired_ok server surroundings.now
  rw [collected'] at collected
  cases collected
  have perm := items ▸ reverse_perm (server.locks.items.filter (!expired · surroundings.now))
  have owned' := owned.release (expired · surroundings.now) perm
    (keys ▸ reverse_perm _)
  refine ⟨by rwa [append_nil], ⟨line, ?_⟩, ?_, by intro _ mem; cases mem⟩
  · exact lined.frame rfl rfl fun _ => ⟨rfl, rfl⟩
  · intro lock mem
    by_cases late : expired lock surroundings.now = true
    · exact .inr late
    · refine .inl (perm.mem_iff.mpr (mem_filter.mpr ⟨mem, ?_⟩))
      simp [late]

end

theorem Selected.turn (perm : locks.items.Perm server.locks.items)
    (selected : Selected surroundings incoming { server with locks } after freed log events) :
    Selected surroundings incoming server after freed log events :=
  { selected with held := fun lock mem => selected.held lock (perm.mem_iff.mpr mem) }

theorem containsKey_safe (owned : Owned server [] log) (lined : Lined server log line) (key : Text) :
    ∃ locks, locks.items.Perm server.locks.items ∧
      containsKey server key = .ok (decide (key ∈ server.keys), { server with locks }) ∧
      Owned { server with locks } [] log ∧ Lined { server with locks } log line ∧
      ∀ y, y ∈ ({ server with locks } : State).keys ↔ y ∈ server.keys := by
  obtain ⟨locks, contains, items⟩ := containsKey_ok server key
  have perm := items ▸ reverse_perm server.locks.items
  exact ⟨locks, perm, contains, owned.turn perm, ⟨lined.perm, lined.aged, lined.order,
    lined.numbered⟩, fun y => (perm.map _).mem_iff⟩

theorem selected_safe (owned : Owned server [] log) (lined : Lined server log line)
    (chosen : selected surroundings server incoming = .ok ((events, promotions), after)) :
    Selected surroundings incoming server after promotions.items log events := by
  cases incoming with
  | timeout =>
    obtain ⟨⟨keys, final⟩, collected, chosen⟩ := bind_eq_ok.mp chosen
    cases chosen
    exact collectExpired_safe owned lined collected
  | message operation =>
    cases operation with
    | acquire request =>
      obtain ⟨locks, perm, contains, owned', lined', keys⟩ :=
        containsKey_safe owned lined request.key
      change (containsKey server request.key >>= _) = _ at chosen
      rw [contains, ok_bind] at chosen
      by_cases present : request.key ∈ server.keys
      · rw [decide_eq_true present] at chosen
        obtain ⟨⟨_, _⟩, queued, chosen⟩ := bind_eq_ok.mp chosen
        cases chosen
        exact (queueWaiter_safe owned' lined' ((keys _).mpr present) queued).turn perm
      · rw [decide_eq_false present] at chosen
        exact (grant_safe owned' lined' (fun held => present ((keys _).mp held)) chosen).turn perm
    | tryLock request =>
      obtain ⟨_, perm, contains, owned', lined', keys⟩ :=
        containsKey_safe owned lined request.key
      change (containsKey server request.key >>= _) = _ at chosen
      rw [contains, ok_bind] at chosen
      by_cases present : request.key ∈ server.keys
      · rw [decide_eq_true present] at chosen
        cases chosen
        exact Selected.turn perm ⟨owned'.quiet rfl,
          ⟨line, lined'.frame rfl rfl fun _ => ⟨rfl, rfl⟩⟩, fun _ mem => .inl mem,
          by intro _ mem; cases mem⟩
      · rw [decide_eq_false present] at chosen
        exact (grant_safe owned' lined' (fun held => present ((keys _).mp held)) chosen).turn perm
    | release =>
      obtain ⟨⟨_, _⟩, releases, chosen⟩ := bind_eq_ok.mp chosen
      obtain ⟨_, appended, chosen⟩ := bind_eq_ok.mp chosen
      cases chosen
      exact releaseOwner_safe owned lined releases appended

/-- **One round** keeps both invariants. A lock ends only by its own release or when it has expired. -/
theorem serve_safe (owned : Owned server [] log) (lined : Lined server log line)
    (ran : serve surroundings server incoming = .ok (events, after)) :
    Selected surroundings incoming server after [] log events := by
  obtain ⟨_, locks, waited, items⟩ := nextTimeout_ok server surroundings.before
  have perm := items ▸ reverse_perm server.locks.items
  unfold serve at ran
  rw [waited, ok_bind] at ran
  obtain ⟨⟨⟨_, _⟩, _⟩, chosen, ran⟩ := bind_eq_ok.mp ran
  obtain ⟨⟨_, _⟩, promoted, ran⟩ := bind_eq_ok.mp ran
  cases ran
  have lined' : Lined { server with locks } log line :=
    ⟨lined.perm, lined.aged, lined.order, lined.numbered⟩
  have first := (selected_safe (owned.turn perm) lined' chosen).turn perm
  obtain ⟨_, lined''⟩ := first.lined
  have rest := promoteAll_safe first.owned lined'' promoted
  refine ⟨by rw [← append_assoc]; exact rest.owned, by rw [← append_assoc]; exact rest.lined,
    fun lock mem => (first.held lock mem).imp_left (rest.held lock), ?_⟩
  intro grant mem
  rw [delivered_append, mem_append] at mem
  rcases mem with mem | mem
  · obtain ⟨lock, mem, same⟩ := first.granted grant mem
    exact ⟨lock, rest.held lock mem, same⟩
  · exact rest.granted grant mem

/-! ### Runs -/

/-- The server with everything that it did. -/
structure Serving where
  server : State
  log : List Event

/-- **The lock server as a machine.** It may be sent anything, in any surroundings. -/
def serving : Machine Serving (Incoming × Surroundings) (Stop Empty) where
  initial := ⟨new, []⟩
  Allowed _ _ := True
  step label state :=
    (serve label.2 state.server label.1).map fun (events, after) => ⟨after, state.log ++ events⟩

instance (state : Serving) (label : Incoming × Surroundings) :
    Decidable (serving.Allowed state label) :=
  inferInstanceAs (Decidable True)

theorem run_safe {labels : List (Incoming × Surroundings)} {s : Serving}
    (run : serving.Run labels s) :
    Owned s.server [] s.log ∧ ∃ line, Lined s.server s.log line := by
  refine run.invariant (fun s => Owned s.server [] s.log ∧
    ∃ line, Lined s.server s.log line) ?_ ?_
  · refine ⟨⟨nodup_nil, nodup_nil, ?_, ?_, List.Pairwise.nil, ?_, ?_⟩, [],
      List.Perm.refl _, List.Pairwise.nil, fun _ => InOrder.empty, ?_⟩
    all_goals intro _
    · intro mem; cases mem
    · intro mem; cases mem
    · intro mem; cases mem
    · intro mem; cases mem
    · intro _ mem; cases mem
  · rintro ⟨server, _⟩ _ ⟨incoming, surroundings⟩ ⟨owned, _, lined⟩ _ taken
    change (serve surroundings server incoming).map _ = _ at taken
    rcases ran : serve surroundings server incoming with _ | ⟨_, _⟩
    · rw [ran] at taken
      cases taken
    · rw [ran] at taken
      cases taken
      have safe := serve_safe owned lined ran
      exact ⟨safe.owned, safe.lined⟩

/-- **The lock server is safe.** Whatever it is sent, whichever replies cannot be delivered and
whatever the clock says:

* a key has one lock at most, and only for a grant that reached somebody;
* owner tokens rise, so that none is given twice;
* a request waits only for a key that somebody holds;
* the requests that came to wait for a key are those that were taken from the line, in the order in
  which they came, and behind them those that wait; none of them comes twice;
* a round ends a lock only by a release with its own key and token, or because it has expired, and a
  grant of the round that reached somebody has its lock at the end of the round. -/
theorem lock_safety {labels : List (Incoming × Surroundings)} {state : Serving}
    (run : serving.Run labels state) :
    state.server.keys.Nodup ∧
    (∀ lock ∈ state.server.locks.items, (lock.key, lock.owner) ∈ delivered state.log) ∧
    (tokens state.log).Pairwise (· < ·) ∧
    (∀ waiter ∈ state.server.waiters.items, waiter.key ∈ state.server.keys) ∧
    (∀ key, (waited key state.log).Nodup ∧ ∃ waiting, waited key state.log =
      served key state.log ++ waiting ∧
      (state.server.waiters.items.filter fun waiter => waiter.key = key).Perm waiting) ∧
    ∀ (incoming : Incoming) (surroundings : Surroundings) (events : List Event) (after : State),
      serve surroundings state.server incoming = .ok (events, after) →
      (∀ lock ∈ state.server.locks.items,
        lock ∈ after.locks.items ∨ Ended surroundings incoming lock) ∧
      ∀ grant ∈ delivered events, ∃ lock ∈ after.locks.items, (lock.key, lock.owner) = grant := by
  obtain ⟨owned, _, lined⟩ := run_safe run
  refine ⟨owned.distinct, owned.known, owned.rising, ?_, ?_, ?_⟩
  · intro waiter mem
    exact (owned.blocked waiter mem).resolve_right (by rintro ⟨⟩)
  · intro key
    have order := lined.order key
    refine ⟨order.once, _, ?_, lined.perm.filter _⟩
    rw [← order.order]
    exact (filter_eq_self.mpr fun request _ => decide_eq_true (by rintro ⟨⟩)).symm
  · intro incoming surroundings events after ran
    have safe := serve_safe owned lined ran
    exact ⟨safe.held, safe.granted⟩

/-- Two requests for one key: the first is granted, the second waits. -/
theorem lock_safety_sample :
    ∃ state, serving.follow
        [(.message (.acquire ⟨Text.empty, 0, 0, 1⟩),
            ⟨fun _ _ => true, fun _ => ⟨0⟩, ⟨0⟩, ⟨0⟩⟩),
          (.message (.acquire ⟨Text.empty, 0, 0, 2⟩),
            ⟨fun _ _ => true, fun _ => ⟨0⟩, ⟨0⟩, ⟨0⟩⟩)] serving.initial = some state ∧
      state.server.waiters.len = 1 ∧
      ∀ waiter ∈ state.server.waiters.items, waiter.key ∈ state.server.keys := by
  refine ⟨_, rfl, rfl, ?_⟩
  exact (lock_safety (Machine.Run.follow .start (rfl : serving.follow
        [(.message (.acquire ⟨Text.empty, 0, 0, 1⟩),
            ⟨fun _ _ => true, fun _ => ⟨0⟩, ⟨0⟩, ⟨0⟩⟩),
          (.message (.acquire ⟨Text.empty, 0, 0, 2⟩),
            ⟨fun _ _ => true, fun _ => ⟨0⟩, ⟨0⟩, ⟨0⟩⟩)] serving.initial = some _))).2.2.2.1

end FoundationLang.Lock
