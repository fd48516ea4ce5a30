/-
**Every job is run once.**
-/

import FoundationLang.Parallel.Lists
import Mathlib.Algebra.BigOperators.Group.Finset.Piecewise
import Mathlib.Data.List.Perm.Basic

namespace FoundationLang.Parallel

open Library List Function

variable {T : Type}

/-! ### The invariant -/

/-- The job that a worker has. -/
def Worker.job : Worker → Option Address
  | .holding job => some job
  | .finished job => some job
  | _ => none

/-- The numbers of the jobs that were run. -/
def State.done (state : State T) : List ℕ :=
  state.ran.map fun entry => entry.2.1

/-- **Who has which job.** -/
structure Ledger (state : State T) (pending all : List Address) : Prop where
  total : state.taken.length + pending.length = state.submitted.length
  queued : ∀ index job, pending[index]? = some job → ∃ task,
    state.content job = some (some task, state.taken.length + index) ∧
      state.submitted[state.taken.length + index]? = some task
  inOrder : state.taken.map Prod.snd = List.range state.taken.length
  members : ∀ job ∈ all, job ∈ pending ∨
    ∃ id < state.pool.workerCount, (state.worker id).job = some job
  held : ∀ id < state.pool.workerCount, ∀ job, (state.worker id).job = some job →
    job ∈ all ∧ job ∉ pending
  apart : ∀ id < state.pool.workerCount, ∀ other < state.pool.workerCount, ∀ job,
    (state.worker id).job = some job → (state.worker other).job = some job → id = other
  holding : ∀ id < state.pool.workerCount, ∀ job, state.worker id = .holding job →
    ∃ ticket task, state.content job = some (some task, ticket) ∧
      state.submitted[ticket]? = some task ∧ (id, ticket) ∈ state.taken ∧ ticket ∉ state.done
  worked : ∀ id ticket, (id, ticket) ∈ state.taken → ticket ∈ state.done ∨
    ∃ job task, id < state.pool.workerCount ∧ state.worker id = .holding job ∧
      state.content job = some (some task, ticket)
  recorded : ∀ id ticket task, (id, ticket, task) ∈ state.ran →
    (id, ticket) ∈ state.taken ∧ state.submitted[ticket]? = some task
  once : state.done.Nodup

/-- A worker that is neither asleep nor gone. -/
def Worker.Up (worker : Worker) : Prop :=
  worker ≠ .waiting ∧ worker ≠ .exited

theorem Worker.up_holding (job : Address) : (Worker.holding job).Up :=
  ⟨Worker.noConfusion, Worker.noConfusion⟩

/-- **Where the threads are.** -/
structure Threads (state : State T) (pending : List Address) : Prop where
  positive : 0 < state.pool.workerCount
  active : pending ≠ [] → ∃ id < state.pool.workerCount, (state.worker id).Up
  exited : ∀ id < state.pool.workerCount, state.worker id = .exited →
    state.pool.stopping = true ∧ pending = []
  awake : state.pool.stopping = true → ∀ id < state.pool.workerCount, state.worker id ≠ .waiting
  joining : ∀ index ∈ state.owner, state.pool.stopping = true ∧ index ≤ state.pool.workerCount ∧
    ∀ id < index, state.worker id = .exited
  joined : state.pool.joined = true → state.pool.stopping = true ∧
    ∀ id < state.pool.workerCount, state.worker id = .exited

/-- **The invariant of the pool.** -/
structure Sound (state : State T) (pending all : List Address) : Prop where
  lists : Lists state pending all
  ledger : Ledger state pending all
  threads : Threads state pending

/-! ### Who has which job -/

/-- Workers that have no job move. -/
def Rests (before after : ℕ → Worker) : Prop :=
  ∀ id, after id = before id ∨ (after id).job = none ∧ (before id).job = none

theorem Rests.job {before after : ℕ → Worker} (rests : Rests before after) (id : ℕ) :
    (after id).job = (before id).job := by
  rcases rests id with same | ⟨none', none''⟩
  · rw [same]
  · rw [none', none'']

theorem Rests.holding {before after : ℕ → Worker} (rests : Rests before after) (id : ℕ)
    (job : Address) : after id = .holding job ↔ before id = .holding job := by
  rcases rests id with same | ⟨none', none''⟩
  · rw [same]
  · constructor
    · intro holds
      rw [holds] at none'
      cases none'
    · intro holds
      rw [holds] at none''
      cases none''

theorem rests_update {before : ℕ → Worker} {id : ℕ} {worker : Worker} (free : (before id).job = none)
    (free' : worker.job = none) : Rests before (update before id worker) := by
  intro y
  by_cases same : y = id
  · rw [same, update_self]
    exact .inr ⟨free', free⟩
  · exact .inl (update_of_ne same _ _)

section Ledger

variable {state after : State T} {pending all : List Address} {job : Address} {id : ℕ}

section

variable (ledger : Ledger state pending all)
include ledger

/-- Workers without a job move. -/
theorem Ledger.idle (content : after.content = state.content)
    (submitted : after.submitted = state.submitted) (taken : after.taken = state.taken)
    (ran : after.ran = state.ran) (count : after.pool.workerCount = state.pool.workerCount)
    (rests : Rests state.worker after.worker) : Ledger after pending all := by
  have job := rests.job
  have holding := rests.holding
  have done : after.done = state.done := by
    unfold State.done
    rw [ran]
  obtain ⟨_, _, _, ms, held, apart, holds, worked, _, _⟩ := ledger
  constructor
  · rwa [taken, submitted]
  · rwa [content, taken, submitted]
  · rwa [taken]
  · simpa only [job, count] using ms
  · simpa only [job, count] using held
  · simpa only [job, count] using apart
  · simpa only [holding, content, submitted, taken, done, count] using holds
  · simpa only [holding, content, taken, done, count] using worked
  · rwa [ran, taken, submitted]
  · rwa [done]

/-- A number is given to one worker. -/
theorem Ledger.taken_unique {other ticket : ℕ}
    (x : (id, ticket) ∈ state.taken) (y : (other, ticket) ∈ state.taken) : id = other := by
  have distinct : (state.taken.map Prod.snd).Nodup := ledger.inOrder ▸ nodup_range
  exact congrArg Prod.fst (inj_on_of_nodup_map distinct x y rfl)

theorem Ledger.taken_lt {ticket : ℕ}
    (given : (id, ticket) ∈ state.taken) : ticket < state.taken.length := by
  have mem : ticket ∈ state.taken.map Prod.snd := mem_map_of_mem given
  rw [ledger.inOrder] at mem
  exact mem_range.mp mem

theorem Ledger.done_lt {ticket : ℕ}
    (finished : ticket ∈ state.done) : ticket < state.taken.length := by
  obtain ⟨⟨id, ticket, task⟩, mem, rfl⟩ := mem_map.mp finished
  exact ledger.taken_lt (ledger.recorded id ticket task mem).1

theorem Ledger.submit (inside : ∀ job ∈ pending, job ∈ all)
    (absent : job ∉ all) (task : T) (submitted : after.submitted = state.submitted ++ [task])
    (content : after.content =
      update state.content job (some (some task, state.submitted.length)))
    (taken : after.taken = state.taken) (ran : after.ran = state.ran)
    (count : after.pool.workerCount = state.pool.workerCount)
    (rests : Rests state.worker after.worker) :
    Ledger after (pending ++ [job]) (job :: all) := by
  have job' := rests.job
  have holding := rests.holding
  have done : after.done = state.done := by
    unfold State.done
    rw [ran]
  have kept {other : Address} (mem : other ∈ all) : after.content other = state.content other := by
    rw [content, update_of_ne]
    rintro rfl
    exact absent mem
  have known {ticket : ℕ} {task' : T} (found : state.submitted[ticket]? = some task') :
      after.submitted[ticket]? = some task' := by
    rw [submitted, List.getElem?_append_left (List.getElem?_eq_some_iff.mp found).1]
    exact found
  obtain ⟨total, queued, inOrder, ms, held, apart, holds, worked, recorded, once⟩ := ledger
  constructor
  · rw [taken, submitted, length_append, length_append, length_singleton,
      length_singleton]
    omega
  · intro index other found
    rw [taken]
    by_cases earlier : index < pending.length
    · rw [List.getElem?_append_left earlier] at found
      obtain ⟨task', here, there⟩ := queued index other found
      refine ⟨task', ?_, known there⟩
      rw [kept (inside other (mem_of_getElem? found))]
      exact here
    · rw [List.getElem?_append_right (by omega), List.getElem?_singleton] at found
      split at found
      · rename_i last
        cases found
        have next : state.taken.length + index = state.submitted.length := by omega
        refine ⟨task, ?_, ?_⟩
        · rw [content, update_self, next]
        · rw [submitted, next, List.getElem?_concat_length]
      · cases found
  · rwa [taken]
  · intro other mem
    rw [count]
    rcases mem_cons.mp mem with rfl | mem
    · exact .inl (mem_append_right _ mem_cons_self)
    · rcases ms other mem with queue | ⟨id, small, hand⟩
      · exact .inl (mem_append_left _ queue)
      · exact .inr ⟨id, small, (job' id).trans hand⟩
  · intro id small other hand
    rw [count] at small
    rw [job'] at hand
    obtain ⟨mem, free⟩ := held id small other hand
    refine ⟨mem_cons_of_mem _ mem, ?_⟩
    rw [mem_append, mem_singleton, not_or]
    refine ⟨free, ?_⟩
    rintro rfl
    exact absent mem
  · simpa only [job', count] using apart
  · intro id small other hand
    rw [count] at small
    rw [holding] at hand
    obtain ⟨ticket, task', here, there, given, fresh⟩ := holds id small other hand
    refine ⟨ticket, task', ?_, known there, taken ▸ given, done ▸ fresh⟩
    rw [kept (held id small other (by rw [hand]; rfl)).1]
    exact here
  · intro id ticket given
    rw [taken] at given
    rw [done, count]
    rcases worked id ticket given with finished | ⟨other, task', small, hand, here⟩
    · exact .inl finished
    · refine .inr ⟨other, task', small, (holding id other).mpr hand, ?_⟩
      rw [kept (held id small other (by rw [hand]; rfl)).1]
      exact here
  · intro id ticket task' mem
    rw [ran] at mem
    rw [taken]
    exact ⟨(recorded id ticket task' mem).1, known (recorded id ticket task' mem).2⟩
  · rwa [done]

end

theorem Ledger.take (ledger : Ledger state (job :: pending) all) (small : id < state.pool.workerCount)
    (distinct : (job :: pending).Nodup) (inside : job ∈ all) (free : (state.worker id).job = none)
    (content : after.content = state.content) (submitted : after.submitted = state.submitted)
    (taken : after.taken = state.taken ++ [(id, state.taken.length)]) (ran : after.ran = state.ran)
    (count : after.pool.workerCount = state.pool.workerCount)
    (worker : after.worker = update state.worker id (.holding job)) :
    Ledger after pending all := by
  have done : after.done = state.done := by
    unfold State.done
    rw [ran]
  obtain ⟨task, here, there⟩ := ledger.queued 0 job rfl
  have others {other : ℕ} (ne : other ≠ id) : after.worker other = state.worker other := by
    rw [worker, update_of_ne ne]
  have self : after.worker id = .holding job := by
    rw [worker, update_self]
  have fresh : state.taken.length ∉ state.done := fun mem => absurd (ledger.done_lt mem) (by omega)
  have given {pair : ℕ × ℕ} : pair ∈ after.taken ↔ pair ∈ state.taken ∨
      pair = (id, state.taken.length) := by
    rw [taken, mem_append, mem_singleton]
  have pendingNodup := nodup_cons.mp distinct
  obtain ⟨total, queued, inOrder, ms, held, apart, holds, worked, recorded, once⟩ := ledger
  -- Nobody else has the job: it was pending.
  have away {other : ℕ} (small' : other < state.pool.workerCount) (ne : other ≠ id)
      {job' : Address} (hand : (after.worker other).job = some job') : job' ≠ job := by
    rintro rfl
    rw [others ne] at hand
    exact (held other small' job' hand).2 mem_cons_self
  constructor
  · rw [taken, submitted, length_append, length_singleton]
    rw [length_cons] at total
    omega
  · intro index other found
    obtain ⟨task', known, known'⟩ := queued (index + 1) other found
    refine ⟨task', ?_, ?_⟩
    · rw [content, known, taken, length_append, length_singleton, Nat.add_right_comm,
        Nat.add_assoc]
    · rw [submitted, taken, length_append, length_singleton, Nat.add_assoc,
        Nat.add_comm 1 index]
      exact known'
  · rw [taken, map_append, inOrder, length_append, length_singleton, range_succ]
    rfl
  · intro other mem
    rw [count]
    rcases ms other mem with queue | ⟨id', small', hand⟩
    · rcases mem_cons.mp queue with rfl | queue
      · exact .inr ⟨id, small, by rw [self]; rfl⟩
      · exact .inl queue
    · refine .inr ⟨id', small', ?_⟩
      rw [others, hand]
      rintro rfl
      rw [free] at hand
      cases hand
  · intro id' small' other hand
    rw [count] at small'
    by_cases same : id' = id
    · rw [same, self] at hand
      cases hand
      exact ⟨inside, pendingNodup.1⟩
    · rw [others same] at hand
      obtain ⟨mem, unqueued⟩ := held id' small' other hand
      exact ⟨mem, fun queue => unqueued (mem_cons_of_mem _ queue)⟩
  · intro x small' y small'' other hand hand'
    rw [count] at small' small''
    by_cases same : x = id
    · by_cases same' : y = id
      · rw [same, same']
      · rw [same, self] at hand
        cases hand
        exact absurd rfl (away small'' same' hand')
    · by_cases same' : y = id
      · rw [same', self] at hand'
        cases hand'
        exact absurd rfl (away small' same hand)
      · rw [others same] at hand
        rw [others same'] at hand'
        exact apart x small' y small'' other hand hand'
  · intro id' small' other hand
    rw [count] at small'
    by_cases same : id' = id
    · rw [same, self] at hand
      cases hand
      refine ⟨state.taken.length, task, ?_, ?_, ?_, done ▸ fresh⟩
      · rw [content]
        exact here
      · rw [submitted]
        exact there
      · rw [same]
        exact given.mpr (.inr rfl)
    · rw [others same] at hand
      obtain ⟨ticket, task', known, known', old, unrun⟩ := holds id' small' other hand
      exact ⟨ticket, task', content ▸ known, submitted ▸ known', given.mpr (.inl old), done ▸ unrun⟩
  · intro id' ticket pair
    rw [done, count]
    rcases given.mp pair with old | new
    · rcases worked id' ticket old with finished | ⟨other, task', small', hand, known⟩
      · exact .inl finished
      · refine .inr ⟨other, task', small', ?_, content ▸ known⟩
        rw [others, hand]
        rintro rfl
        rw [hand] at free
        cases free
    · cases new
      exact .inr ⟨job, task, small, self, content ▸ here⟩
  · intro id' ticket task' mem
    rw [ran] at mem
    obtain ⟨old, known⟩ := recorded id' ticket task' mem
    exact ⟨given.mpr (.inl old), submitted ▸ known⟩
  · rwa [done]

theorem Ledger.run (ledger : Ledger state pending all) (small : id < state.pool.workerCount)
    (holds : state.worker id = .holding job) {ticket : ℕ} {task : T}
    (known : state.content job = some (some task, ticket))
    (content : after.content = update state.content job (some (none, ticket)))
    (submitted : after.submitted = state.submitted) (taken : after.taken = state.taken)
    (ran : after.ran = state.ran ++ [(id, ticket, task)])
    (count : after.pool.workerCount = state.pool.workerCount)
    (worker : after.worker = update state.worker id (.finished job)) :
    Ledger after pending all := by
  have done : after.done = state.done ++ [ticket] := by
    unfold State.done
    rw [ran, map_append]
    rfl
  have others {other : ℕ} (ne : other ≠ id) : after.worker other = state.worker other := by
    rw [worker, update_of_ne ne]
  have self : after.worker id = .finished job := by
    rw [worker, update_self]
  have job' (other : ℕ) : (after.worker other).job = (state.worker other).job := by
    by_cases same : other = id
    · rw [same, self, holds]
      rfl
    · rw [others same]
  have hand : (state.worker id).job = some job := by
    rw [holds]
    rfl
  obtain ⟨ticket', task', known', listed, given, unrun⟩ := ledger.holding id small job holds
  obtain ⟨rfl, rfl⟩ : task = task' ∧ ticket = ticket' := by
    have same := known.symm.trans known'
    simpa using same
  have kept {other : Address} (ne : other ≠ job) : after.content other = state.content other := by
    rw [content, update_of_ne ne]
  have unique {x second n : ℕ} (one : (x, n) ∈ state.taken)
      (two : (second, n) ∈ state.taken) : x = second := ledger.taken_unique one two
  obtain ⟨_, queued, _, ms, held, apart, holding, worked, recorded, once⟩ := ledger
  have away {other : ℕ} (small' : other < state.pool.workerCount) (ne : other ≠ id)
      {job' : Address} (hand' : state.worker other = .holding job') : job' ≠ job := by
    rintro rfl
    exact ne (apart other small' id small job' (by rw [hand']; rfl) hand)
  constructor
  · rwa [taken, submitted]
  · intro index other found
    obtain ⟨task', here, there⟩ := queued index other found
    refine ⟨task', ?_, ?_⟩
    · rw [kept, taken]
      · exact here
      · rintro rfl
        exact (held id small other hand).2 (mem_of_getElem? found)
    · rw [submitted, taken]
      exact there
  · rwa [taken]
  · simpa only [job', count] using ms
  · simpa only [job', count] using held
  · simpa only [job', count] using apart
  · intro other small' job'' hand'
    rw [count] at small'
    have ne : other ≠ id := by
      rintro rfl
      rw [self] at hand'
      cases hand'
    rw [others ne] at hand'
    obtain ⟨ticket', task', here, there, given', unrun'⟩ := holding other small' job'' hand'
    refine ⟨ticket', task', ?_, submitted ▸ there, taken ▸ given', ?_⟩
    · rw [kept (away small' ne hand')]
      exact here
    · rw [done, mem_append, mem_singleton, not_or]
      refine ⟨unrun', ?_⟩
      rintro rfl
      exact ne (unique given' given)
  · intro other ticket' given'
    rw [taken] at given'
    rw [done, count]
    rcases worked other ticket' given' with finished | ⟨job'', task', small', hand', here⟩
    · exact .inl (mem_append_left _ finished)
    · by_cases same : other = id
      · subst same
        rw [holds] at hand'
        cases hand'
        rw [known] at here
        cases here
        exact .inl (mem_append_right _ mem_cons_self)
      · refine .inr ⟨job'', task', small', ?_, ?_⟩
        · rw [others same]
          exact hand'
        · rw [kept (away small' same hand')]
          exact here
  · intro other ticket' task' mem
    rw [ran, mem_append, mem_singleton] at mem
    rw [taken, submitted]
    rcases mem with mem | new
    · exact recorded other ticket' task' mem
    · cases new
      exact ⟨given, listed⟩
  · rw [done]
    exact nodup_append.mpr ⟨once, nodup_singleton _, by
      rintro _ finished _ last rfl
      rw [mem_singleton.mp last] at finished
      exact unrun finished⟩

theorem Ledger.finish (ledger : Ledger state pending all) (distinct : all.Nodup)
    (small : id < state.pool.workerCount) (holds : state.worker id = .finished job)
    (content : after.content = update state.content job none)
    (submitted : after.submitted = state.submitted) (taken : after.taken = state.taken)
    (ran : after.ran = state.ran) (count : after.pool.workerCount = state.pool.workerCount)
    (worker : after.worker = update state.worker id .looking) :
    Ledger after pending (all.erase job) := by
  have done : after.done = state.done := by
    unfold State.done
    rw [ran]
  have others {other : ℕ} (ne : other ≠ id) : after.worker other = state.worker other := by
    rw [worker, update_of_ne ne]
  have self : after.worker id = .looking := by
    rw [worker, update_self]
  have hand : (state.worker id).job = some job := by
    rw [holds]
    rfl
  have kept {other : Address} (ne : other ≠ job) : after.content other = state.content other := by
    rw [content, update_of_ne ne]
  obtain ⟨_, queued, _, ms, held, apart, holding, worked, recorded, _⟩ := ledger
  have away {other : ℕ} (small' : other < state.pool.workerCount) (ne : other ≠ id)
      {job' : Address} (hand' : (state.worker other).job = some job') : job' ≠ job := by
    rintro rfl
    exact ne (apart other small' id small job' hand' hand)
  -- A worker that has a job afterwards is another one, and had it before.
  have before {other : ℕ} {job' : Address} (hand' : (after.worker other).job = some job') :
      other ≠ id ∧ (state.worker other).job = some job' := by
    have ne : other ≠ id := by
      rintro rfl
      rw [self] at hand'
      cases hand'
    rw [others ne] at hand'
    exact ⟨ne, hand'⟩
  constructor
  · rwa [taken, submitted]
  · intro index other found
    obtain ⟨task', here, there⟩ := queued index other found
    refine ⟨task', ?_, ?_⟩
    · rw [kept, taken]
      · exact here
      · rintro rfl
        exact (held id small other hand).2 (mem_of_getElem? found)
    · rw [submitted, taken]
      exact there
  · rwa [taken]
  · intro other mem
    rw [distinct.mem_erase_iff] at mem
    rw [count]
    rcases ms other mem.2 with queue | ⟨id', small', hand'⟩
    · exact .inl queue
    · refine .inr ⟨id', small', ?_⟩
      rw [others, hand']
      rintro rfl
      rw [hand] at hand'
      exact mem.1 (Option.some.inj hand').symm
  · intro other small' job' hand'
    rw [count] at small'
    obtain ⟨ne, hand'⟩ := before hand'
    obtain ⟨mem, free⟩ := held other small' job' hand'
    exact ⟨distinct.mem_erase_iff.mpr ⟨away small' ne hand', mem⟩, free⟩
  · intro x small' y small'' job' hand' hand''
    rw [count] at small' small''
    exact apart x small' y small'' job' (before hand').2 (before hand'').2
  · intro other small' job' hand'
    rw [count] at small'
    obtain ⟨ne, hand''⟩ := @before other job' (by rw [hand']; rfl)
    rw [others ne] at hand'
    obtain ⟨ticket, task, here, there, given, unrun⟩ := holding other small' job' hand'
    refine ⟨ticket, task, ?_, submitted ▸ there, taken ▸ given, done ▸ unrun⟩
    rw [kept (away small' ne hand'')]
    exact here
  · intro other ticket given
    rw [taken] at given
    rw [done, count]
    rcases worked other ticket given with finished | ⟨job', task, small', hand', here⟩
    · exact .inl finished
    · have ne : other ≠ id := by
        rintro rfl
        rw [holds] at hand'
        cases hand'
      refine .inr ⟨job', task, small', ?_, ?_⟩
      · rw [others ne]
        exact hand'
      · rw [kept (away small' ne (by rw [hand']; rfl))]
        exact here
  · intro other ticket task mem
    rw [ran] at mem
    rw [taken, submitted]
    exact recorded other ticket task mem
  · rwa [done]

end Ledger

/-! ### Where the threads are -/

section Threads

variable {state after : State T} {pending pending' all : List Address} {id : ℕ}

/-- A worker that has not left moves. -/
theorem Threads.move (threads : Threads state pending) (small : id < state.pool.workerCount)
    {worker : Worker} (before : state.worker id ≠ .exited)
    (sleeps : worker = .waiting → state.pool.stopping = false)
    (leaves : worker = .exited → state.pool.stopping = true ∧ pending' = [])
    (active : pending' ≠ [] → worker.Up) (moved : after.worker = update state.worker id worker)
    (count : after.pool.workerCount = state.pool.workerCount)
    (stopping : after.pool.stopping = state.pool.stopping)
    (joined : after.pool.joined = state.pool.joined) (owner : after.owner = state.owner)
    (fewer : pending = [] → pending' = []) : Threads after pending' := by
  have others {y : ℕ} (gone : state.worker y = .exited) : after.worker y = .exited := by
    rw [moved, update_of_ne, gone]
    rintro rfl
    exact before gone
  have self : after.worker id = worker := by
    rw [moved, update_self]
  refine ⟨count ▸ threads.positive, fun some' => ⟨id, count ▸ small, self ▸ active some'⟩, ?_, ?_, ?_,
    ?_⟩
  · intro y small' gone
    rw [stopping]
    by_cases same : y = id
    · rw [same, self] at gone
      exact leaves gone
    · rw [moved, update_of_ne same] at gone
      exact (threads.exited y (count ▸ small') gone).imp_right fewer
  · intro stops y small' asleep
    rw [stopping] at stops
    by_cases same : y = id
    · rw [same, self] at asleep
      rw [sleeps asleep] at stops
      cases stops
    · rw [moved, update_of_ne same] at asleep
      exact threads.awake stops y (count ▸ small') asleep
  · intro index mem
    rw [owner] at mem
    obtain ⟨stops, bound, gone⟩ := threads.joining index mem
    exact ⟨stopping ▸ stops, count ▸ bound, fun y less => others (gone y less)⟩
  · intro is
    obtain ⟨stops, gone⟩ := threads.joined (joined ▸ is)
    exact ⟨stopping ▸ stops, fun y less => others (gone y (count ▸ less))⟩

theorem Threads.up (threads : Threads state pending) (small : id < state.pool.workerCount)
    {worker : Worker} (before : state.worker id ≠ .exited) (up : worker.Up)
    (moved : after.worker = update state.worker id worker)
    (count : after.pool.workerCount = state.pool.workerCount)
    (stopping : after.pool.stopping = state.pool.stopping)
    (joined : after.pool.joined = state.pool.joined) (owner : after.owner = state.owner)
    (fewer : pending = [] → pending' = []) : Threads after pending' :=
  threads.move small before (fun asleep => absurd asleep up.1) (fun gone => absurd gone up.2)
    (fun _ => up) moved count stopping joined owner fewer

/-- **A job is submitted**, and a worker is up. -/
theorem Threads.submit (threads : Threads state pending) (running : state.pool.stopping = false)
    {woken : Option ℕ} (wakes : Wakes state woken)
    (worker : after.worker = (signal woken state).worker)
    (count : after.pool.workerCount = state.pool.workerCount)
    (stopping : after.pool.stopping = state.pool.stopping)
    (joined : after.pool.joined = state.pool.joined) (owner : after.owner = state.owner) :
    Threads after pending' := by
  have never {condition : Prop} (stops : state.pool.stopping = true) : condition := by
    rw [running] at stops
    cases stops
  have alive : ∀ id < state.pool.workerCount, state.worker id ≠ .exited :=
    fun id small gone => never (threads.exited id small gone).1
  refine ⟨count ▸ threads.positive, fun _ => ?_, fun id small gone => ?_, fun stops => ?_,
    fun index mem => ?_, fun is => ?_⟩
  · rw [count, worker]
    cases woken with
    | none => exact ⟨0, threads.positive, wakes 0 threads.positive, alive 0 threads.positive⟩
    | some id =>
      refine ⟨id, wakes.1, ?_⟩
      change (update state.worker id .looking id).Up
      rw [update_self]
      exact ⟨Worker.noConfusion, Worker.noConfusion⟩
  · rw [count] at small
    rw [worker] at gone
    cases woken with
    | none => exact absurd gone (alive id small)
    | some y =>
      change update state.worker y .looking id = .exited at gone
      by_cases same : id = y
      · rw [same, update_self] at gone
        cases gone
      · rw [update_of_ne same] at gone
        exact absurd gone (alive id small)
  · exact never (stopping ▸ stops)
  · exact never (threads.joining index (owner ▸ mem)).1
  · exact never (threads.joined (joined ▸ is)).1

theorem Worker.awake_ne_waiting (worker : Worker) : worker.awake ≠ .waiting := by
  cases worker <;> exact Worker.noConfusion

theorem Worker.awake_eq_exited {worker : Worker} : worker.awake = .exited ↔ worker = .exited := by
  cases worker <;> simp [Worker.awake]

theorem Worker.awake_job (worker : Worker) :
    worker.awake = worker ∨ worker.awake.job = none ∧ worker.job = none := by
  cases worker <;> simp [Worker.awake, Worker.job]

/-- **The pool stops**, and all workers are woken. -/
theorem Threads.join (threads : Threads state pending) (unjoined : state.pool.joined = false)
    (worker : after.worker = fun id => (state.worker id).awake)
    (pool : after.pool = { state.pool with stopping := true }) (owner : after.owner = some 0) :
    Threads after pending := by
  have gone {id : ℕ} : after.worker id = .exited ↔ state.worker id = .exited := by
    rw [worker]
    exact Worker.awake_eq_exited
  refine ⟨by rw [pool]; exact threads.positive, fun some' => ?_, fun id small left => ?_,
    fun _ id _ asleep => ?_, fun index mem => ?_, fun is => ?_⟩
  · obtain ⟨id, small, up⟩ := threads.active some'
    refine ⟨id, by rw [pool]; exact small, ?_, fun left => up.2 (gone.mp left)⟩
    rw [worker]
    exact Worker.awake_ne_waiting _
  · rw [pool] at small ⊢
    exact ⟨rfl, (threads.exited id small (gone.mp left)).2⟩
  · rw [worker] at asleep
    exact Worker.awake_ne_waiting _ asleep
  · rw [owner] at mem
    cases mem
    rw [pool]
    exact ⟨rfl, Nat.zero_le _, fun id less => absurd less (Nat.not_lt_zero _)⟩
  · rw [pool] at is
    rw [unjoined] at is
    cases is

theorem Sound.empty (sound : Sound state pending all)
    (gone : ∀ id < state.pool.workerCount, state.worker id = .exited) : pending = [] ∧ all = [] := by
  have pos := sound.threads.positive
  have none' : pending = [] := (sound.threads.exited 0 pos (gone 0 pos)).2
  refine ⟨none', eq_nil_iff_forall_not_mem.mpr fun job mem => ?_⟩
  rcases sound.ledger.members job mem with queue | ⟨id, small, hand⟩
  · rw [none'] at queue
    cases queue
  · rw [gone id small] at hand
    cases hand

end Threads

/-! ### The work that is left -/

/-- The steps that a worker takes at least before it comes to rest. -/
def Worker.weight : Worker → ℕ
  | .looking => 1
  | .waiting => 0
  | .holding _ => 3
  | .finished _ => 2
  | .exited => 0

/-- The steps of all workers. -/
def load (state : State T) : ℕ :=
  ∑ id ∈ Finset.range state.pool.workerCount, (state.worker id).weight

/-- **A bound of the steps of the workers**, until something is submitted or a worker wakes up. -/
def work (state : State T) : ℕ :=
  3 * (state.submitted.length - state.taken.length) + load state

/-- A step of a worker that is at work, not one that wakes up. -/
def Action.Works : Action T → Prop
  | .look _ => True
  | .run _ _ => True
  | .finish _ _ => True
  | _ => False

theorem load_update {state after : State T} {id : ℕ} {worker : Worker}
    (small : id < state.pool.workerCount)
    (moved : after.worker = update state.worker id worker)
    (count : after.pool.workerCount = state.pool.workerCount) :
    load after + (state.worker id).weight = load state + worker.weight := by
  have mem := Finset.mem_range.mpr small
  have weights : (fun y => (after.worker y).weight) =
      update (fun y => (state.worker y).weight) id worker.weight := by
    rw [moved]
    exact comp_update Worker.weight state.worker id worker
  unfold load
  rw [count, weights, Finset.sum_update_of_mem mem,
    Finset.sum_eq_add_sum_sdiff_singleton_of_mem mem fun y => (state.worker y).weight]
  omega

/-! ### Steps -/

section Steps

variable {state : State T} {pending all : List Address} {job : Address} {id : ℕ}

/-- A step returns a state in which the invariant holds, and a bound of the work that is left. -/
def Goes (result : Except Panic (State T)) (bounded : State T → Prop) : Prop :=
  ∃ after pending all, result = .ok after ∧ Sound after pending all ∧ bounded after

/-- Any work may be left. -/
def anyWork (_ : State T) : Prop :=
  True

/-- There is less to do than before. -/
def lessWork (before after : State T) : Prop :=
  work after < work before

theorem Goes.idle {r : Except Panic (State T)} {bounded : State T → Prop} (goes : Goes r bounded)
    {works : Prop} (idles : works → False) : Goes r fun after => works → work after < work state := by
  obtain ⟨after, pending, all, ran, sound, _⟩ := goes
  exact ⟨after, pending, all, ran, sound, fun works => absurd works idles⟩

theorem Goes.busy {r : Except Panic (State T)} (goes : Goes r (lessWork state)) {works : Prop} :
    Goes r fun after => works → work after < work state := by
  obtain ⟨after, pending, all, ran, sound, less⟩ := goes
  exact ⟨after, pending, all, ran, sound, fun _ => less⟩

theorem less_of_move {after : State T} (small : id < state.pool.workerCount) {worker : Worker}
    (moved : after.worker = update state.worker id worker)
    (count : after.pool.workerCount = state.pool.workerCount)
    (submitted : after.submitted = state.submitted) (taken : after.taken = state.taken)
    (lighter : worker.weight < (state.worker id).weight) : lessWork state after := by
  have changed := load_update small moved count
  unfold lessWork work
  rw [submitted, taken]
  omega

theorem signal_rests {woken : Option ℕ} (wakes : Wakes state woken) :
    Rests state.worker (signal woken state).worker := by
  cases woken with
  | none => exact fun _ => .inl rfl
  | some => exact rests_update (by rw [wakes.2]; rfl) rfl

section

variable (sound : Sound state pending all)
include sound

theorem submit_goes (fresh : state.heap job = none)
    {woken : Option ℕ} (wakes : Wakes state woken) (running : state.pool.stopping = false)
    (room : state.pool.jobs ≠ sizeMax) (task : T) : Goes (submit job task woken state) anyWork := by
  have unjoined : state.pool.joined = false := by
    rw [Bool.eq_false_iff]
    intro is
    rw [(sound.threads.joined is).1] at running
    cases running
  obtain ⟨after, ran, lists, content, frame, pool⟩ :=
    submit_lists sound.lists fresh running unjoined room task woken
  have worker : after.worker = (signal woken state).worker := by rw [frame]
  have absent : job ∉ all := fun mem => (sound.lists.live job).mpr mem fresh
  have count : after.pool.workerCount = state.pool.workerCount := by rw [pool]
  have kept : after.taken = state.taken ∧ after.ran = state.ran ∧ after.owner = state.owner := by
    rw [frame]
    cases woken with
    | none | some => exact ⟨rfl, rfl, rfl⟩
  refine ⟨after, _, _, ran, ⟨lists, ?_, ?_⟩, trivial⟩
  · refine sound.ledger.submit (fun _ => sound.lists.pending_subset) absent task (by rw [frame]) content
      kept.1 kept.2.1 count ?_
    rw [worker]
    exact signal_rests wakes
  · exact sound.threads.submit running wakes worker count (by rw [pool]) (by rw [pool]) kept.2.2

theorem rest_goes (looks : state.worker id = .looking)
    (nothing : state.pool.pendingHead = none) {worker : Worker} (free : worker.job = none)
    (sleeps : worker = .waiting → state.pool.stopping = false)
    (leaves : worker = .exited → state.pool.stopping = true) (small : id < state.pool.workerCount)
    (light : worker.weight = 0) : Goes (.ok (state.move id worker)) (lessWork state) := by
  obtain rfl : pending = [] := sound.lists.pendingPath.first_eq_none.mp nothing
  refine ⟨_, [], all, rfl, ⟨sound.lists.of_eq rfl rfl, ?_, ?_⟩, ?_⟩
  · exact sound.ledger.idle rfl rfl rfl rfl rfl (rests_update (by rw [looks]; rfl) free)
  · exact sound.threads.move small (by rw [looks]; nofun) sleeps (fun gone => ⟨leaves gone, rfl⟩)
      (absurd rfl) rfl rfl rfl rfl rfl fun same => same
  · have moved := @load_update _ state (state.move id worker) _ _ small rfl rfl
    rw [looks, light] at moved
    change work (state.move id worker) < work state
    unfold work
    change 3 * (state.submitted.length - state.taken.length) + _ < _
    change _ + 1 = _ at moved
    omega

section

variable (small : id < state.pool.workerCount)
include small

theorem look_goes
    (looks : state.worker id = .looking) : Goes (look id state) (lessWork state) := by
  unfold look
  split
  · rename_i idle
    exact rest_goes sound looks idle.1 rfl (fun _ => idle.2) (fun same => nomatch same) small rfl
  split
  · rename_i idle
    exact rest_goes sound looks idle.1 rfl (fun same => nomatch same) (fun _ => idle.2) small rfl
  rename_i running stopping
  have some' : state.pool.pendingHead ≠ none := by
    intro nothing
    cases stops : state.pool.stopping with
    | false => exact running ⟨nothing, stops⟩
    | true => exact stopping ⟨nothing, stops⟩
  cases pending with
  | nil => exact absurd (sound.lists.pendingPath.first_eq_none.mpr rfl) some'
  | cons job rest =>
    obtain ⟨record, popped, known, taken, lists, content, frame, pool⟩ := pop_lists sound.lists
    obtain ⟨task, here, _⟩ := sound.ledger.queued 0 job rfl
    rw [content_eq known, Option.some.injEq, Prod.mk.injEq] at here
    have ticket : record.ticket = state.taken.length := here.2
    have free : (state.worker id).job = none := by
      rw [looks]
      rfl
    have worker : popped.worker = state.worker := by rw [frame]
    have earlier : popped.taken = state.taken := by rw [frame]
    have count : popped.pool.workerCount = state.pool.workerCount := by rw [pool]
    have stopping : popped.pool.stopping = state.pool.stopping := by rw [pool]
    have joined : popped.pool.joined = state.pool.joined := by rw [pool]
    set after : State T := { popped.move id (.holding job) with
      taken := popped.taken ++ [(id, record.ticket)] }
    have moved : after.worker = update state.worker id (.holding job) := by
      change update popped.worker id _ = _
      rw [worker]
    have taken' : after.taken = state.taken ++ [(id, state.taken.length)] := by
      change popped.taken ++ [(id, record.ticket)] = _
      rw [earlier, ticket]
    have submitted : after.submitted = state.submitted := by
      change popped.submitted = _
      rw [frame]
    refine ⟨after, rest, all, except_bind_eq_ok.mpr ⟨_, taken, rfl⟩, ⟨lists.of_eq rfl rfl, ?_, ?_⟩, ?_⟩
    · exact sound.ledger.take small sound.lists.pending_distinct
        (sound.lists.pending_subset mem_cons_self) free content submitted taken'
        (by change popped.ran = _; rw [frame]) count moved
    · exact sound.threads.up small (by rw [looks]; exact Worker.noConfusion) (Worker.up_holding job)
        moved count stopping joined (by change popped.owner = _; rw [frame]) (fun same => nomatch same)
    · have heavier := load_update small moved count
      have total := sound.ledger.total
      rw [looks] at heavier
      change _ + 1 = _ + 3 at heavier
      change work after < work state
      unfold work
      rw [submitted, taken', length_append, length_singleton]
      rw [length_cons] at total
      omega

theorem wake_goes
    (waits : state.worker id = .waiting) : Goes (.ok (state.move id .looking)) anyWork := by
  refine ⟨_, pending, all, rfl, ⟨sound.lists.of_eq rfl rfl, ?_, ?_⟩, trivial⟩
  · exact sound.ledger.idle rfl rfl rfl rfl rfl (rests_update (by rw [waits]; rfl) rfl)
  · exact sound.threads.up small (by rw [waits]; exact Worker.noConfusion)
      ⟨Worker.noConfusion, Worker.noConfusion⟩ rfl rfl rfl rfl rfl fun same => same

theorem run_goes
    (holds : state.worker id = .holding job) : Goes (run id job state) (lessWork state) := by
  obtain ⟨_, task, known, _⟩ := sound.ledger.holding id small job holds
  obtain ⟨record, found⟩ := sound.lists.record (sound.ledger.held id small job (by rw [holds]; rfl)).1
  rw [content_eq found, Option.some.injEq, Prod.mk.injEq] at known
  obtain ⟨hasTask, rfl⟩ := known
  have ran : run id job state = .ok
      { (state.write job { record with task := none }).move id (.finished job) with
        ran := state.ran ++ [(id, record.ticket, task)] } := by
    refine except_bind_eq_ok.mpr ⟨record, read_eq found, ?_⟩
    rw [hasTask]
    rfl
  have lists : Lists (state.write job { record with task := none }) pending all :=
    sound.lists.write found rfl rfl
  refine ⟨_, pending, all, ran, ⟨lists.of_eq rfl rfl, ?_, ?_⟩, ?_⟩
  · refine sound.ledger.run small holds (show state.content job = some (some task, record.ticket) from ?_)
      (write_content state job _) rfl rfl rfl rfl rfl
    rw [content_eq found, hasTask]
  · exact sound.threads.up small (by rw [holds]; exact Worker.noConfusion)
      ⟨Worker.noConfusion, Worker.noConfusion⟩ rfl rfl rfl rfl rfl fun same => same
  · refine less_of_move small rfl rfl rfl rfl ?_
    rw [holds]
    exact Nat.lt_succ_self 2

theorem finish_goes
    (finished : state.worker id = .finished job) : Goes (finish id job state) (lessWork state) := by
  obtain ⟨mem, free⟩ := sound.ledger.held id small job (by rw [finished]; rfl)
  obtain ⟨after, ran, lists, content, frame, pool⟩ := finish_lists sound.lists mem free id
  have count : after.pool.workerCount = state.pool.workerCount := by rw [pool]
  refine ⟨after, pending, all.erase job, ran, ⟨lists, ?_, ?_⟩, ?_⟩
  · exact sound.ledger.finish sound.lists.distinct small finished content (by rw [frame]; rfl)
      (by rw [frame]; rfl) (by rw [frame]; rfl) count (by rw [frame]; rfl)
  · exact sound.threads.up small (by rw [finished]; exact Worker.noConfusion)
      ⟨Worker.noConfusion, Worker.noConfusion⟩ (by rw [frame]; rfl) count (by rw [pool])
      (by rw [pool]) (by rw [frame]; rfl) fun same => same
  · refine less_of_move small (by rw [frame]; rfl) count (by rw [frame]; rfl)
      (by rw [frame]; rfl) ?_
    rw [finished]
    exact Nat.lt_succ_self 1

end

theorem join_goes (cancel : Bool) :
    Goes (join cancel state) anyWork := by
  unfold join
  split
  · exact ⟨state, pending, all, rfl, sound, trivial⟩
  · rename_i unjoined
    rw [Bool.not_eq_true] at unjoined
    set stopped : State T := { state with pool := { state.pool with stopping := true } } with isStopped
    have lists : Lists stopped pending all :=
      ⟨sound.lists.pendingPath, sound.lists.tail, sound.lists.allPath, sound.lists.counted,
        sound.lists.distinct, sound.lists.order, sound.lists.live⟩
    obtain ⟨requested, ran, lists', content, frame⟩ : ∃ requested : State T,
        cancelAll cancel stopped = .ok requested ∧ Lists requested pending all ∧
        requested.content = stopped.content ∧ requested = { stopped with heap := requested.heap } := by
      cases cancel with
      | false => exact ⟨stopped, rfl, lists, rfl, rfl⟩
      | true =>
        refine requestCancellation_lists lists lists.allPath (List.Subset.refl _) ?_
        rw [lists.counted]
        exact Nat.le_succ _
    have pool : requested.pool = stopped.pool := by rw [frame]
    have worker : requested.worker = state.worker := by rw [frame]
    refine ⟨_, pending, all, except_bind_eq_ok.mpr ⟨requested, ran, rfl⟩,
      ⟨lists'.of_eq rfl rfl, ?_, ?_⟩, trivial⟩
    · refine sound.ledger.idle content (by rw [frame]) (by rw [frame]) (by rw [frame]) ?_ ?_
      · change requested.pool.workerCount = _
        rw [pool]
      · change Rests state.worker fun id => (requested.worker id).awake
        rw [worker]
        exact fun id => (state.worker id).awake_job
    · refine sound.threads.join unjoined ?_ pool rfl
      rw [worker]

theorem await_goes {i : ℕ} (owner : state.owner = some i)
    (small : i < state.pool.workerCount) (gone : state.worker i = .exited) :
    Goes (.ok (await state)) anyWork := by
  obtain ⟨stops, _, earlier⟩ := sound.threads.joining i owner
  refine ⟨_, pending, all, rfl, ⟨sound.lists.of_eq rfl rfl, ?_, ?_⟩, trivial⟩
  · exact sound.ledger.idle rfl rfl rfl rfl rfl fun _ => .inl rfl
  · obtain ⟨pos, active, exited, awake, _, joined⟩ := sound.threads
    refine ⟨pos, active, exited, awake, fun next mem => ?_, joined⟩
    have same : some (i + 1) = some next := by
      rw [← mem]
      change _ = state.owner.map _
      rw [owner]
      rfl
    cases same
    refine ⟨stops, small, fun id less => ?_⟩
    rcases Nat.lt_succ_iff_lt_or_eq.mp less with less | rfl
    · exact earlier id less
    · exact gone

theorem settle_goes
    (owner : state.owner = some state.pool.workerCount) : Goes (settle state) anyWork := by
  obtain ⟨stops, _, gone⟩ := sound.threads.joining _ owner
  obtain ⟨rfl, rfl⟩ := sound.empty gone
  have lists := sound.lists
  unfold settle
  rw [if_neg]
  · refine ⟨_, [], [], rfl, ⟨⟨lists.pendingPath, lists.tail, lists.allPath, lists.counted,
      lists.distinct, lists.order, lists.live⟩, ?_, ?_⟩, trivial⟩
    · exact sound.ledger.idle rfl rfl rfl rfl rfl fun _ => .inl rfl
    · obtain ⟨pos, active, exited, awake, _, _⟩ := sound.threads
      exact ⟨pos, active, exited, awake, fun _ mem => (nomatch mem),
        fun _ => ⟨stops, gone⟩⟩
  · rw [lists.counted, lists.tail, lists.pendingPath.first_eq_none.mpr rfl,
      lists.allPath.first_eq_none.mpr rfl]
    simp

end

/-- What a refused submission says. -/
def Refused (state : State T) (panic : Panic) : Prop :=
  (state.pool.stopping = true ∧ panic = "parallel pool is closed") ∨
    (state.pool.jobs = sizeMax ∧ panic = "parallel pool job count overflow")

/-- **Every step keeps the invariant**; only a submission can be refused. -/
theorem sound_step (sound : Sound state pending all) {action : Action T}
    (allowed : Allowed state action) :
    Goes (step action state) (fun after => action.Works → work after < work state) ∨
      ∃ job task woken panic, action = .submit job task woken ∧ Refused state panic ∧
        step action state = .error panic := by
  cases action with
  | submit job task woken =>
    by_cases stops : state.pool.stopping = true
    · refine .inr ⟨job, task, woken, _, rfl, .inl ⟨stops, rfl⟩, ?_⟩
      change (if (state.pool.stopping || state.pool.joined) = true then _ else _) = _
      rw [stops]
      rfl
    · by_cases full : state.pool.jobs = sizeMax
      · refine .inr ⟨job, task, woken, _, rfl, .inr ⟨full, rfl⟩, ?_⟩
        have unjoined : ¬(state.pool.stopping || state.pool.joined) = true := by
          rw [Bool.or_eq_true, not_or]
          exact ⟨stops, fun is => stops (sound.threads.joined is).1⟩
        change (if (state.pool.stopping || state.pool.joined) = true then _ else
          if state.pool.jobs = sizeMax then _ else _) = _
        rw [if_neg unjoined, if_pos full]
      · exact .inl ((submit_goes sound allowed.1 allowed.2 (Bool.eq_false_iff.mpr stops) full task).idle
          fun works => works)
  | look => exact .inl ((look_goes sound allowed.1 allowed.2).busy)
  | wake => exact .inl ((wake_goes sound allowed.1 allowed.2).idle fun works => works)
  | run => exact .inl ((run_goes sound allowed.1 allowed.2).busy)
  | finish => exact .inl ((finish_goes sound allowed.1 allowed.2).busy)
  | join cancel => exact .inl ((join_goes sound cancel).idle fun works => works)
  | await =>
    cases owner : state.owner with
    | none =>
      have awaits : Awaits state state.owner := allowed
      rw [owner] at awaits
      cases awaits
    | some =>
      have awaits : Awaits state state.owner := allowed
      rw [owner] at awaits
      exact .inl ((await_goes sound owner awaits.1 awaits.2).idle fun works => works)
  | settle => exact .inl ((settle_goes sound allowed).idle fun works => works)

end Steps

/-! ### Runs -/

section Runs

variable {state : State T} {pending all : List Address}

theorem sound_opened {workers : ℕ} (pos : 0 < workers) : Sound (opened T workers) [] [] := by
  refine ⟨⟨rfl, rfl, rfl, rfl, nodup_nil, List.Sublist.refl _, fun job => ?_⟩, ?_, ?_⟩
  · exact iff_of_false (fun found => found rfl) not_mem_nil
  · constructor
    · rfl
    · exact fun index job found => nomatch found
    · rfl
    · exact fun job mem => nomatch mem
    · exact fun id small job hand => nomatch hand
    · exact fun id small y small' job hand => nomatch hand
    · exact fun id small job hand => nomatch hand
    · exact fun id ticket mem => nomatch mem
    · exact fun id ticket task mem => nomatch mem
    · exact nodup_nil
  · refine ⟨pos, fun some' => absurd rfl some', ?_, ?_, ?_, ?_⟩
    · exact fun id small gone => nomatch gone
    · exact fun stops => nomatch stops
    · exact fun index mem => nomatch mem
    · exact fun is => nomatch is

theorem Sound.run (sound : Sound state pending all) {actions : List (Action T)} {final : State T}
    (run : (machine state).Run actions final) : ∃ pending all, Sound final pending all := by
  refine run.invariant (fun state => ∃ pending all, Sound state pending all) ⟨pending, all, sound⟩ ?_
  rintro before _ action ⟨_, _, sound⟩ allowed taken
  rcases sound_step sound allowed with ⟨_, pending', all', same, sound', _⟩ |
    ⟨_, _, _, _, _, _, refused⟩
  · rw [show (machine state).step action before = step action before from rfl, same] at taken
    cases taken
    exact ⟨pending', all', sound'⟩
  · rw [show (machine state).step action before = step action before from rfl, refused] at taken
    cases taken

theorem Sound.work_le (sound : Sound state pending all) {works : List (Action T)} {final : State T}
    (busy : ∀ action ∈ works, action.Works) (run : (machine state).Run works final) :
    works.length + work final ≤ work state := by
  induction run with
  | start => exact Nat.le_of_eq (Nat.zero_add _)
  | @step works before after action run allowed taken ih =>
    obtain ⟨pending', all', sound'⟩ := sound.run run
    have earlier := ih fun y mem => busy y (mem_append_left _ mem)
    rcases sound_step sound' allowed with ⟨next, _, _, same, _, less⟩ | ⟨_, _, _, _, _, _, refused⟩
    · rw [show (machine state).step action before = step action before from rfl, same] at taken
      cases taken
      have lighter := less (busy action (mem_append_right _ mem_cons_self))
      rw [length_append, length_singleton]
      omega
    · rw [show (machine state).step action before = step action before from rfl, refused] at taken
      cases taken

/-- No worker is at work. -/
def AtRest (state : State T) : Prop :=
  ∀ action : Action T, action.Works → ¬Allowed state action

theorem AtRest.worker (rest : AtRest state) {id : ℕ} (small : id < state.pool.workerCount) :
    state.worker id = .waiting ∨ state.worker id = .exited := by
  cases known : state.worker id with
  | looking => exact absurd ⟨small, known⟩ (rest (.look id) trivial)
  | waiting => exact .inl rfl
  | holding job => exact absurd ⟨small, known⟩ (rest (.run id job) trivial)
  | finished job => exact absurd ⟨small, known⟩ (rest (.finish id job) trivial)
  | exited => exact .inr rfl

/-- When nobody is up, all tasks were run. -/
theorem Sound.all_done (sound : Sound state pending all)
    (rest : ∀ id < state.pool.workerCount, state.worker id = .waiting ∨ state.worker id = .exited) :
    state.done.Perm (List.range state.submitted.length) := by
  have nothing : pending = [] := by
    by_contra some'
    obtain ⟨id, small, up⟩ := sound.threads.active some'
    exact (rest id small).elim up.1 up.2
  have total := sound.ledger.total
  rw [nothing, length_nil, Nat.add_zero] at total
  rw [perm_ext_iff_of_nodup sound.ledger.once nodup_range]
  intro ticket
  rw [mem_range, ← total]
  refine ⟨sound.ledger.done_lt, fun small => ?_⟩
  have mem : ticket ∈ state.taken.map Prod.snd := by
    rw [sound.ledger.inOrder]
    exact mem_range.mpr small
  obtain ⟨⟨id, _⟩, given, rfl⟩ := mem_map.mp mem
  rcases sound.ledger.worked id _ given with finished | ⟨_, _, small', holds, _⟩
  · exact finished
  · rcases rest id small' with asleep | gone
    · rw [holds] at asleep
      cases asleep
    · rw [holds] at gone
      cases gone

/-- **What holds of a pool at any time.** -/
structure Served (state : State T) : Prop where
  /-- The pending list is a part of the list of all jobs, read from its end, and has its last job as
  its tail. -/
  lists : ∃ pending all, LinkPath state.nextPending state.pool.pendingHead pending none ∧
    LinkPath state.nextAll state.pool.allHead all none ∧ pending.Sublist all.reverse ∧
    state.pool.pendingTail = pending.getLast? ∧ state.pool.jobs = all.length
  /-- Jobs are taken up in the order of their submission. -/
  inOrder : state.taken.map Prod.snd = List.range state.taken.length
  /-- No job is run twice. -/
  once : state.done.Nodup
  /-- A job is run by the worker that took it up, with the task that was submitted. -/
  recorded : ∀ id ticket task, (id, ticket, task) ∈ state.ran →
    (id, ticket) ∈ state.taken ∧ state.submitted[ticket]? = some task
  /-- A step that fails is a submission to a pool that is closed or full. -/
  safe : ∀ action panic, Allowed state action → step action state = .error panic →
    Refused state panic
  /-- When the pool is joined, all jobs were run. -/
  joined : state.pool.joined = true → state.done.Perm (List.range state.submitted.length)
  /-- However the workers go on, they come to rest; then all jobs were run, and if the pool is to stop,
  all workers have left. -/
  served : ∀ works final, (∀ action ∈ works, action.Works) → (machine state).Run works final →
    works.length ≤ work state ∧
      (AtRest final → final.done.Perm (List.range final.submitted.length) ∧
        (final.pool.stopping = true →
          ∀ id < final.pool.workerCount, final.worker id = .exited))

theorem Sound.served (sound : Sound state pending all) : Served state where
  lists := ⟨pending, all, sound.lists.pendingPath, sound.lists.allPath, sound.lists.order,
    sound.lists.tail, sound.lists.counted⟩
  inOrder := sound.ledger.inOrder
  once := sound.ledger.once
  recorded := sound.ledger.recorded
  safe action panic allowed failed := by
    rcases sound_step sound allowed with ⟨_, _, _, same, _⟩ | ⟨_, _, _, _, _, refused, same⟩
    · rw [same] at failed
      cases failed
    · rw [same] at failed
      cases failed
      exact refused
  joined is := sound.all_done fun id small => .inr ((sound.threads.joined is).2 id small)
  served works final busy run := by
    obtain ⟨pending', all', sound'⟩ := sound.run run
    have bound := sound.work_le busy run
    refine ⟨by omega, fun rest => ⟨sound'.all_done fun id small => rest.worker small, ?_⟩⟩
    intro stops id small
    exact (rest.worker small).resolve_left (sound'.threads.awake stops id small)

/-- **Every job is run once**, in every run of a pool that was opened. -/
theorem pool_runs {workers : ℕ} {first : State T} (isOpen : poolOpen T workers = .ok first)
    {actions : List (Action T)} (run : (machine first).Run actions state) : Served state := by
  unfold poolOpen at isOpen
  split at isOpen
  · cases isOpen
  · rename_i valid
    cases isOpen
    obtain ⟨_, _, sound⟩ := (sound_opened (by omega)).run run
    exact sound.served

end Runs

/-! ### Two jobs -/

/-- Two jobs are submitted. -/
def sampleSubmissions : List (Action ℕ) :=
  [.submit 8 70 none, .submit 3 71 none]

/-- One worker runs the first job, the other one takes up the second one. -/
def sampleActions : List (Action ℕ) :=
  sampleSubmissions ++ [.look 0, .run 0 8, .look 1, .finish 0 8]

theorem pool_runs_sample :
    ∃ state, (machine (opened ℕ 2)).Run sampleActions state ∧ Served state := by
  obtain ⟨state, followed⟩ :
      ∃ state, (machine (opened ℕ 2)).follow sampleActions (opened ℕ 2) = some state := ⟨_, rfl⟩
  have run := (@Machine.Run.start _ _ _ (machine (opened ℕ 2))).follow followed
  rw [nil_append] at run
  exact ⟨state, run, pool_runs (show poolOpen ℕ 2 = .ok (opened ℕ 2) from rfl) run⟩

/-- **The two lists have opposite orders.** -/
theorem pool_lists_opposite :
    ∃ state pending all, (machine (opened ℕ 2)).Run sampleSubmissions state ∧
      LinkPath state.nextPending state.pool.pendingHead pending none ∧
      LinkPath state.nextAll state.pool.allHead all none ∧ ¬pending.Sublist all := by
  obtain ⟨state, followed, pending, all⟩ :
      ∃ state : State ℕ, (machine (opened ℕ 2)).follow sampleSubmissions (opened ℕ 2) = some state ∧
        LinkPath state.nextPending state.pool.pendingHead [8, 3] none ∧
        LinkPath state.nextAll state.pool.allHead [3, 8] none :=
    ⟨_, rfl, ⟨rfl, rfl, rfl⟩, ⟨rfl, rfl, rfl⟩⟩
  exact ⟨state, [8, 3], [3, 8], Machine.Run.follow .start followed, pending, all, by decide⟩

end FoundationLang.Parallel
