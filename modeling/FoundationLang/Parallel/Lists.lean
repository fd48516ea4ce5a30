/-
**The lists of the pool.**

* `content` — the task and the number of each job; it does not depend on the lists.
* `submit_lists`, `pop_lists`, `remove_lists`, `requestCancellation_lists` — what each function returns,
  and the lists and the contents behind it.
-/

import FoundationLang.Library.Outcome
import FoundationLang.Parallel.Pool

namespace FoundationLang.Parallel

open Library List Function

variable {T : Type}

/-- The task and the number of a job. -/
def State.content (state : State T) (job : Address) : Option (Option T × ℕ) :=
  (state.heap job).map fun record => (record.task, record.ticket)

/-- **The lists of a state**: the pending jobs from the first to the last one, and all jobs from the
last one to the first. -/
structure Lists (state : State T) (pending all : List Address) : Prop where
  pendingPath : LinkPath state.nextPending state.pool.pendingHead pending none
  tail : state.pool.pendingTail = pending.getLast?
  allPath : LinkPath state.nextAll state.pool.allHead all none
  counted : state.pool.jobs = all.length
  distinct : all.Nodup
  order : pending.Sublist all.reverse
  live : ∀ job, state.heap job ≠ none ↔ job ∈ all

/-! ### Reading and writing -/

section Write

variable (state : State T) (job : Address) (record : Job T)

theorem read_eq {state : State T} {job : Address} {record : Job T} (known : state.heap job = some record) :
    state.read job = .ok record := by
  unfold State.read
  rw [known]

@[simp]
theorem write_heap : (state.write job record).heap = update state.heap job (some record) :=
  rfl

@[simp]
theorem write_pool : (state.write job record).pool = state.pool :=
  rfl

theorem write_nextPending :
    (state.write job record).nextPending =
      update state.nextPending job record.pendingNext :=
  comp_update (fun found : Option (Job T) => found.bind Job.pendingNext) state.heap job (some record)

theorem write_nextAll :
    (state.write job record).nextAll = update state.nextAll job record.allNext :=
  comp_update (fun found : Option (Job T) => found.bind Job.allNext) state.heap job (some record)

theorem write_content :
    (state.write job record).content =
      update state.content job (some (record.task, record.ticket)) :=
  comp_update (Option.map fun record : Job T => (record.task, record.ticket)) state.heap job (some record)

variable {state job record}

theorem nextPending_eq (known : state.heap job = some record) :
    state.nextPending job = record.pendingNext := by
  unfold State.nextPending
  rw [known]
  rfl

theorem nextAll_eq (known : state.heap job = some record) : state.nextAll job = record.allNext := by
  unfold State.nextAll
  rw [known]
  rfl

theorem content_eq (known : state.heap job = some record) :
    state.content job = some (record.task, record.ticket) := by
  unfold State.content
  rw [known]
  rfl

theorem free_nextPending (state : State T) (job : Address) :
    (state.free job).nextPending = update state.nextPending job none :=
  comp_update (fun found : Option (Job T) => found.bind Job.pendingNext) state.heap job none

theorem free_nextAll (state : State T) (job : Address) :
    (state.free job).nextAll = update state.nextAll job none :=
  comp_update (fun found : Option (Job T) => found.bind Job.allNext) state.heap job none

theorem free_content (state : State T) (job : Address) :
    (state.free job).content = update state.content job none :=
  comp_update (Option.map fun record : Job T => (record.task, record.ticket)) state.heap job none

section

variable (known : state.heap job = some record) {record' : Job T}
include known

theorem write_nextPending_eq
    (same : record'.pendingNext = record.pendingNext) :
    (state.write job record').nextPending = state.nextPending := by
  rw [write_nextPending, same, ← nextPending_eq known, update_eq_self]

theorem write_nextAll_eq
    (same : record'.allNext = record.allNext) :
    (state.write job record').nextAll = state.nextAll := by
  rw [write_nextAll, same, ← nextAll_eq known, update_eq_self]

theorem write_content_eq
    (task : record'.task = record.task) (ticket : record'.ticket = record.ticket) :
    (state.write job record').content = state.content := by
  rw [write_content, task, ticket, ← content_eq known, update_eq_self]

theorem write_live (record' : Job T) (y : Address) :
    (state.write job record').heap y ≠ none ↔ state.heap y ≠ none := by
  rw [write_heap]
  by_cases same : y = job
  · subst same
    rw [update_self, known]
    simp
  · rw [update_of_ne same]

end

end Write

section Functions

variable {state : State T} {pending all : List Address} {job : Address}

section

variable (lists : Lists state pending all)
include lists

theorem Lists.record (mem : job ∈ all) :
    ∃ record, state.heap job = some record :=
  Option.ne_none_iff_exists'.mp ((lists.live job).mpr mem)

theorem Lists.pending_subset (mem : job ∈ pending) : job ∈ all :=
  mem_reverse.mp (lists.order.subset mem)

theorem Lists.pending_distinct : pending.Nodup :=
  lists.order.nodup (nodup_reverse.mpr lists.distinct)

theorem Lists.of_eq {state' : State T}
    (heap : state'.heap = state.heap) (pool : state'.pool = state.pool) : Lists state' pending all := by
  obtain ⟨_, _, _, _, distinct, order, _⟩ := lists
  have nextPending : state'.nextPending = state.nextPending := by
    unfold State.nextPending
    rw [heap]
  have nextAll : state'.nextAll = state.nextAll := by
    unfold State.nextAll
    rw [heap]
  refine ⟨?_, ?_, ?_, ?_, distinct, order, ?_⟩
  · rwa [nextPending, pool]
  · rwa [pool]
  · rwa [nextAll, pool]
  · rwa [pool]
  · rwa [heap]

theorem Lists.write {record record' : Job T}
    (known : state.heap job = some record) (pendingNext : record'.pendingNext = record.pendingNext)
    (allNext : record'.allNext = record.allNext) : Lists (state.write job record') pending all := by
  refine ⟨?_, lists.tail, ?_, lists.counted, lists.distinct, lists.order, fun y => ?_⟩
  · rw [write_nextPending_eq known pendingNext]
    exact lists.pendingPath
  · rw [write_nextAll_eq known allNext]
    exact lists.allPath
  · rw [write_live known]
    exact lists.live y

end

/-! ### The functions -/

/-- **The first pending job is taken from its list.** -/
theorem pop_lists (lists : Lists state (job :: pending) all) :
    ∃ (record : Job T) (popped : State T), state.heap job = some record ∧
      pop state = .ok (some (job, { record with pendingNext := none }), popped) ∧
      Lists popped pending all ∧ popped.content = state.content ∧
      popped = { state with heap := popped.heap, pool := popped.pool } ∧
      popped.pool = { state.pool with pendingHead := popped.pool.pendingHead,
                                      pendingTail := popped.pool.pendingTail } := by
  obtain ⟨record, known⟩ := lists.record (lists.pending_subset mem_cons_self)
  have distinct := lists.pending_distinct
  obtain ⟨head, rest⟩ := lists.pendingPath
  rw [nextPending_eq known] at rest
  set pool := { state.pool with pendingHead := record.pendingNext,
                                pendingTail := pending.getLast? } with changed
  set record' : Job T := { record with pendingNext := none }
  have taken : pop state = .ok (some (job, record'), ({ state with pool } : State T).write job record') := by
    unfold pop
    rw [head]
    dsimp only
    rw [read_eq known]
    have tail : (if record.pendingNext = none then none else state.pool.pendingTail) =
        pending.getLast? := by
      by_cases last : record.pendingNext = none
      · rw [if_pos last, rest.first_eq_none.mp last]
        rfl
      · rw [if_neg last, lists.tail, List.getLast?_cons]
        obtain ⟨y, _, same⟩ :=
          exists_cons_of_ne_nil fun empty => last (rest.first_eq_none.mpr empty)
        rw [same]
        rfl
    rw [changed, ← tail]
    by_cases last : record.pendingNext = none
    · simp [last, record']
    · simp [last, record']
  refine ⟨record, _, known, taken, ⟨?_, rfl, ?_, lists.counted, lists.distinct,
    (sublist_cons_self job pending).trans lists.order, fun y => ?_⟩, ?_, rfl, rfl⟩
  · rw [write_nextPending]
    exact rest.update (nodup_cons.mp distinct).1 none
  · have kept : ({ state with pool } : State T).heap job = some record := known
    rw [write_nextAll_eq kept (show record'.allNext = record.allNext from rfl)]
    exact lists.allPath
  · have kept : ({ state with pool } : State T).heap job = some record := known
    rw [write_live kept]
    exact lists.live y
  · have kept : ({ state with pool } : State T).heap job = some record := known
    exact write_content_eq kept rfl rfl

theorem seek_eq {front passed : List Address} {rest : List Address} {fuel : ℕ}
    (path : LinkPath state.nextAll state.pool.allHead (passed ++ (front ++ job :: rest)) none)
    (live : ∀ y ∈ front, state.heap y ≠ none) (absent : job ∉ front)
    (enough : front.length < fuel) :
    seek state job fuel (Link.behind passed) = .ok (Link.behind (passed ++ front), true) := by
  induction front generalizing passed fuel with
  | nil =>
    obtain ⟨fuel, rfl⟩ := Nat.exists_eq_add_of_lt enough
    obtain ⟨m, path, starts, _⟩ := path_append.mp path
    rw [show [].length + fuel + 1 = fuel + 1 by simp, seek, path.read, starts]
    dsimp only
    rw [if_pos rfl, append_nil]
  | cons y front ih =>
    rw [mem_cons, not_or] at absent
    obtain ⟨fuel, rfl⟩ : ∃ less, fuel = less + 1 := ⟨fuel - 1, by rw [length_cons] at enough; omega⟩
    obtain ⟨m, path', starts, _⟩ := path_append.mp path
    obtain ⟨record, known⟩ := Option.ne_none_iff_exists'.mp (live y mem_cons_self)
    have more := @ih (passed ++ [y]) fuel (by simpa using path)
      (fun another mem => live another (mem_cons_of_mem _ mem)) absent.2
      (by rw [length_cons] at enough; omega)
    rw [Link.behind_concat] at more
    rw [seek, path'.read, starts]
    dsimp only
    rw [if_neg (Ne.symm absent.1), read_eq known]
    change seek state job fuel (.next y) = _
    rw [more, append_assoc, singleton_append]

theorem relink_eq {front rest : List Address} (lists : Lists state pending (front ++ job :: rest))
    (link : Option Address) :
    ∃ changed : State T, relink state link (Link.behind front) = .ok changed ∧
      changed.nextAll = (Link.behind front).writeNext state.nextAll link ∧
      changed.pool = { state.pool with allHead := (Link.behind front).writeHead state.pool.allHead link } ∧
      changed.nextPending = state.nextPending ∧ changed.content = state.content ∧
      (∀ y, changed.heap y ≠ none ↔ state.heap y ≠ none) ∧
      (∀ y ∉ front, changed.heap y = state.heap y) ∧
      changed = { state with heap := changed.heap, pool := changed.pool } := by
  rcases eq_nil_or_concat front with rfl | ⟨others, last, rfl⟩
  · exact ⟨_, rfl, rfl, rfl, rfl, rfl, fun _ => Iff.rfl, fun _ _ => rfl, rfl⟩
  · rw [concat_eq_append] at lists ⊢
    rw [Link.behind_concat]
    obtain ⟨record, known⟩ := lists.record (show last ∈ others ++ [last] ++ job :: rest by simp)
    refine ⟨state.write last { record with allNext := link }, ?_, write_nextAll _ _ _, rfl,
      write_nextPending_eq known rfl, write_content_eq known rfl rfl, write_live known _,
      fun y away => ?_, rfl⟩
    · change (state.read last >>= fun record => _) = _
      rw [read_eq known]
      rfl
    · rw [write_heap, update_of_ne]
      rintro rfl
      exact away (by simp)

/-- **A job is taken from the list of all jobs and released.** -/
theorem finish_lists (lists : Lists state pending all) (mem : job ∈ all) (apart : job ∉ pending)
    (id : ℕ) :
    ∃ after : State T, finish id job state = .ok after ∧ Lists after pending (all.erase job) ∧
      after.content = update state.content job none ∧
      after = { state.move id .looking with heap := after.heap, pool := after.pool } ∧
      after.pool = { state.pool with allHead := after.pool.allHead, jobs := after.pool.jobs } := by
  obtain ⟨front, rest, rfl⟩ := append_of_mem mem
  obtain ⟨record, known⟩ := lists.record mem
  obtain ⟨_, distinct', disjoint⟩ := nodup_append.mp lists.distinct
  have before : job ∉ front := fun inside => disjoint job inside job mem_cons_self rfl
  have behind : job ∉ rest := (nodup_cons.mp distinct').1
  have erased : (front ++ job :: rest).erase job = front ++ rest := by
    rw [erase_append_right _ before, erase_cons_head]
  have long : state.pool.jobs = (front ++ rest).length + 1 := by
    rw [lists.counted]
    simp only [length_append, length_cons]
    omega
  -- The search finds the link, and the link leaves the job out.
  have found : seek state job (state.pool.jobs + 1) .head = .ok (Link.behind front, true) := by
    refine seek_eq (show LinkPath _ _ ([] ++ _) none from lists.allPath) ?_ before ?_
    · exact fun y inside => (lists.live y).mpr (mem_append_left _ inside)
    · rw [long, length_append]
      omega
  obtain ⟨changed, relinked, nextAll, pool, nextPending, content, live, away, frame⟩ :=
    relink_eq lists record.allNext
  have kept : changed.heap job = some record := (away job before).trans known
  set record' : Job T := { record with allNext := none }
  set removed : State T := { changed.write job record' with
    pool := { changed.pool with jobs := changed.pool.jobs - 1 } } with isRemoved
  have ran : finish id job state = .ok ((removed.move id .looking).free job) := by
    refine except_bind_eq_ok.mpr ⟨removed, ?_, rfl⟩
    refine except_bind_eq_ok.mpr ⟨_, found, ?_⟩
    dsimp only
    rw [if_neg (by simp [long])]
    refine except_bind_eq_ok.mpr ⟨record, read_eq known, ?_⟩
    refine except_bind_eq_ok.mpr ⟨changed, relinked, ?_⟩
    exact except_bind_eq_ok.mpr ⟨record, read_eq kept, rfl⟩
  have nextAll' : removed.nextAll = update changed.nextAll job none := write_nextAll _ _ _
  have nextPending' : removed.nextPending = changed.nextPending := write_nextPending_eq kept rfl
  have content' : removed.content = changed.content := write_content_eq kept rfl rfl
  have pool' : removed.pool = { state.pool with allHead := removed.pool.allHead,
                                                jobs := removed.pool.jobs } := by
    rw [isRemoved, pool]
  refine ⟨_, ran, ⟨?_, ?_, ?_, ?_, ?_, ?_, fun y => ?_⟩, ?_, ?_, pool'⟩
  · rw [free_nextPending]
    change LinkPath (update removed.nextPending job none) removed.pool.pendingHead _ _
    rw [nextPending', nextPending, pool']
    exact lists.pendingPath.update apart none
  · change removed.pool.pendingTail = _
    rw [pool']
    exact lists.tail
  · rw [free_nextAll, erased]
    change LinkPath (update removed.nextAll job none) removed.pool.allHead _ _
    have cut := lists.allPath.unlink lists.distinct
    rw [nextAll_eq known] at cut
    have none' : job ∉ front ++ rest := by
      rw [mem_append, not_or]
      exact ⟨before, behind⟩
    rw [nextAll', nextAll, isRemoved, pool]
    exact (cut.update none' none).update none' none
  · rw [erased]
    change changed.pool.jobs - 1 = _
    rw [pool]
    dsimp only
    omega
  · exact lists.distinct.erase job
  · have smaller := lists.order.erase job
    rwa [erase_of_not_mem apart, (nodup_reverse.mpr lists.distinct).erase_eq_filter,
      filter_reverse, ← lists.distinct.erase_eq_filter] at smaller
  · rw [lists.distinct.mem_erase_iff, ← lists.live, ← live]
    change update removed.heap job none y ≠ none ↔ _
    by_cases same : y = job
    · subst same
      simp
    · rw [update_of_ne same]
      change update changed.heap job (some record') y ≠ none ↔ _
      rw [update_of_ne same]
      exact ⟨fun there => ⟨same, there⟩, And.right⟩
  · rw [free_content]
    change update removed.content job none = _
    rw [content', content]
  · rw [isRemoved, frame]
    rfl

theorem linkPending_path {record : Job T}
    (path : LinkPath state.nextPending state.pool.pendingHead pending none)
    (tail : state.pool.pendingTail = pending.getLast?) (distinct : pending.Nodup)
    (live : ∀ other ∈ pending, state.heap other ≠ none) (known : state.heap job = some record)
    (ends : record.pendingNext = none) (absent : job ∉ pending) :
    ∃ linked : State T, linkPending job state = .ok linked ∧
      LinkPath linked.nextPending linked.pool.pendingHead (pending ++ [job]) none ∧
      linked.nextAll = state.nextAll ∧ linked.content = state.content ∧
      (∀ other, linked.heap other ≠ none ↔ state.heap other ≠ none) ∧
      linked.heap job = some record ∧
      linked = { state with heap := linked.heap, pool := { state.pool with
        pendingHead := linked.pool.pendingHead, pendingTail := some job } } := by
  have ends' : state.nextPending job = none := (nextPending_eq known).trans ends
  unfold linkPending
  rw [tail]
  rcases eq_nil_or_concat pending with rfl | ⟨others, last, rfl⟩
  · exact ⟨_, rfl, ⟨rfl, ends'⟩, rfl, rfl, fun _ => Iff.rfl, known, rfl⟩
  · rw [concat_eq_append] at path distinct live absent ⊢
    have inside : last ∈ others ++ [last] := mem_append_right _ mem_cons_self
    have other : job ≠ last := by
      rintro rfl
      exact absent inside
    have once : last ∉ others :=
      fun mem => (nodup_append.mp distinct).2.2 last mem last mem_cons_self rfl
    obtain ⟨found, known'⟩ := Option.ne_none_iff_exists'.mp (live last inside)
    rw [List.getLast?_concat]
    refine ⟨_, except_bind_eq_ok.mpr ⟨found, read_eq known', rfl⟩, ?_,
      write_nextAll_eq known' (show _ = found.allNext from rfl), write_content_eq known' rfl rfl,
      write_live known' _, ?_, rfl⟩
    · refine path_append.mpr ⟨some job, ?_, rfl, ?_⟩
      · have changed := path.relink once (some job)
        rwa [← write_nextPending state last { found with pendingNext := some job }] at changed
      · change (state.write last _).nextPending job = none
        rw [write_nextPending, update_of_ne other]
        exact ends'
    · change (state.write last _).heap job = _
      rw [write_heap, update_of_ne other]
      exact known

@[simp]
theorem signal_heap (woken : Option ℕ) (state : State T) : (signal woken state).heap = state.heap := by
  cases woken with
  | none | some => rfl

@[simp]
theorem signal_pool (woken : Option ℕ) (state : State T) : (signal woken state).pool = state.pool := by
  cases woken with
  | none | some => rfl

/-- **A job is put on both lists.** -/
theorem submit_lists (lists : Lists state pending all) (fresh : state.heap job = none)
    (live : state.pool.stopping = false) (unjoined : state.pool.joined = false)
    (room : state.pool.jobs ≠ sizeMax) (task : T) (woken : Option ℕ) :
    ∃ after : State T, submit job task woken state = .ok after ∧
      Lists after (pending ++ [job]) (job :: all) ∧
      after.content =
        update state.content job (some (some task, state.submitted.length)) ∧
      after = { signal woken state with heap := after.heap, pool := after.pool,
                                        submitted := state.submitted ++ [task] } ∧
      after.pool = { state.pool with
        pendingHead := after.pool.pendingHead, pendingTail := some job,
        allHead := some job, jobs := state.pool.jobs + 1 } := by
  have absent : job ∉ all := fun mem => (lists.live job).mpr mem fresh
  have absent' : job ∉ pending := fun mem => absent (lists.pending_subset mem)
  set record : Job T := ⟨none, none, some task, false, state.submitted.length⟩
  set x := state.write job record with isFirst
  have here : x.heap job = some record := update_self _ _ _
  have old : LinkPath x.nextPending x.pool.pendingHead pending none := by
    rw [isFirst, write_nextPending]
    exact lists.pendingPath.update absent' none
  have alive : ∀ z ∈ pending, x.heap z ≠ none := by
    intro z mem
    rw [isFirst, write_heap, update_of_ne]
    · exact (lists.live z).mpr (lists.pending_subset mem)
    · rintro rfl
      exact absent' mem
  obtain ⟨y, linked, path, nextAll, content, live', kept, frame⟩ :=
    linkPending_path old lists.tail lists.pending_distinct alive here rfl absent'
  have pool : y.pool = { state.pool with pendingHead := y.pool.pendingHead,
                                              pendingTail := some job } := congrArg State.pool frame
  set record' : Job T := { record with allNext := y.pool.allHead }
  set third := y.write job record'
  set fourth : State T := { third with pool := { y.pool with
    allHead := some job, jobs := y.pool.jobs + 1 } } with isFourth
  set final : State T := { fourth with submitted := fourth.submitted ++ [task] } with isFinal
  have ran : submit job task woken state = .ok (signal woken final) := by
    unfold submit
    change (if (state.pool.stopping || state.pool.joined) = true then _ else
      if state.pool.jobs = sizeMax then _ else _) = _
    rw [live, unjoined, if_neg (by decide), if_neg room]
    refine except_bind_eq_ok.mpr ⟨y, linked, ?_⟩
    refine except_bind_eq_ok.mpr ⟨fourth, ?_, rfl⟩
    exact except_bind_eq_ok.mpr ⟨record, read_eq kept, rfl⟩
  have nextPending : third.nextPending = y.nextPending := write_nextPending_eq kept rfl
  have content' : third.content = y.content := write_content_eq kept rfl rfl
  have lists' : Lists final (pending ++ [job]) (job :: all) := by
    refine ⟨?_, ?_, ⟨rfl, ?_⟩, ?_, nodup_cons.mpr ⟨absent, lists.distinct⟩, ?_, fun z => ?_⟩
    · change LinkPath third.nextPending y.pool.pendingHead _ _
      rw [nextPending]
      exact path
    · change y.pool.pendingTail = _
      rw [pool, List.getLast?_concat]
    · change LinkPath third.nextAll (third.nextAll job) _ _
      rw [write_nextAll, update_self, nextAll, isFirst, write_nextAll]
      change LinkPath _ y.pool.allHead _ _
      rw [pool]
      exact (lists.allPath.update absent none).update absent _
    · change y.pool.jobs + 1 = _
      rw [pool, length_cons]
      exact congrArg (· + 1) lists.counted
    · rw [reverse_cons]
      exact lists.order.append (List.Sublist.refl _)
    · change third.heap z ≠ none ↔ _
      rw [write_live kept, live', isFirst, write_heap, mem_cons, ← lists.live]
      by_cases same : z = job
      · subst same
        simp
      · rw [update_of_ne same]
        exact ⟨.inr, fun either => either.resolve_left same⟩
  refine ⟨signal woken final, ran, lists'.of_eq (signal_heap woken final) (signal_pool woken final),
    ?_, ?_, ?_⟩
  · unfold State.content
    rw [signal_heap]
    change third.content = _
    rw [content', content, isFirst, write_content]
    rfl
  · have worker : y.worker = state.worker := by rw [frame]; rfl
    have owner : y.owner = state.owner := by rw [frame]; rfl
    have submitted : y.submitted = state.submitted := by rw [frame]; rfl
    have taken : y.taken = state.taken := by rw [frame]; rfl
    have ran : y.ran = state.ran := by rw [frame]; rfl
    have same : final = ⟨final.heap, final.pool, state.worker, state.owner, state.submitted ++ [task],
        state.taken, state.ran⟩ := by
      change State.mk _ _ y.worker y.owner (y.submitted ++ [task]) y.taken
        y.ran = _
      rw [worker, owner, submitted, taken, ran]
    rw [signal_heap, signal_pool]
    conv => lhs; rw [same]
    cases woken with
    | none | some => rfl
  · rw [signal_pool]
    change Pool.mk y.pool.pendingHead y.pool.pendingTail _ (y.pool.jobs + 1)
      y.pool.workerCount y.pool.stopping y.pool.joined = Pool.mk y.pool.pendingHead _ _ _ _ _ _
    rw [congrArg Pool.pendingTail pool, congrArg Pool.jobs pool, congrArg Pool.workerCount pool,
      congrArg Pool.stopping pool, congrArg Pool.joined pool]

/-- **Cancellation is requested of jobs.** -/
theorem requestCancellation_lists {fuel : ℕ} {link : Option Address} {rest : List Address}
    (lists : Lists state pending all) (path : LinkPath state.nextAll link rest none)
    (inside : rest ⊆ all) (enough : rest.length ≤ fuel) :
    ∃ after : State T, requestCancellation fuel link state = .ok after ∧ Lists after pending all ∧
      after.content = state.content ∧ after = { state with heap := after.heap } := by
  induction rest generalizing state fuel link with
  | nil =>
    obtain rfl : link = none := path
    refine ⟨state, ?_, lists, rfl, rfl⟩
    cases fuel with
    | zero => rfl
    | succ => rfl
  | cons job rest ih =>
    obtain ⟨fuel, rfl⟩ : ∃ less, fuel = less + 1 := ⟨fuel - 1, by rw [length_cons] at enough; omega⟩
    obtain ⟨rfl, path⟩ := path
    obtain ⟨record, known⟩ := lists.record (inside mem_cons_self)
    set requested := state.write job { record with cancellationRequested := true }
    have links : requested.nextAll = state.nextAll := write_nextAll_eq known rfl
    rw [nextAll_eq known, ← links] at path
    have lists' : Lists requested pending all := lists.write known rfl rfl
    obtain ⟨after, ran, lists', content, frame⟩ := ih lists' path
      (fun y mem => inside (mem_cons_of_mem _ mem)) (Nat.le_of_succ_le_succ enough)
    refine ⟨after, ?_, lists', ?_, frame⟩
    · exact except_bind_eq_ok.mpr ⟨record, read_eq known, ran⟩
    · rw [content]
      exact write_content_eq known rfl rfl

end Functions

end FoundationLang.Parallel
