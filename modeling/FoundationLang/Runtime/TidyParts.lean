/-
**Parts of the bookkeeping, one change at a time.**

What each kind of change does to the parts of `Tidy`: a task leaves its place, is woken, parks; a
select wait is claimed, changes, is freed; an operation begins and ends; a channel changes.
-/

import FoundationLang.Runtime.Tidy

namespace FoundationLang.Runtime

open List Function

variable {V : Type} {st : Wake} {found : SelectWait V} {channel : ChannelId}

/-! ### A place that changes -/

section

variable {ι α : Type} [DecidableEq ι] {vs : ι → Option α} {id other : ι} {value found : α}

theorem of_update {vs : ι → α} {change : α} (there : update vs id change other = found) :
    (other = id ∧ change = found) ∨ (other ≠ id ∧ vs other = found) := by
  rw [update_apply] at there
  split_ifs at there with same
  · exact .inl ⟨same, there⟩
  · exact .inr ⟨same, there⟩

theorem update_there {vs : ι → α} {change : α} (ne : other ≠ id)
    (there : vs other = found) : update vs id change other = found :=
  (update_of_ne ne ..).trans there

omit [DecidableEq ι] in
theorem place_ne (there : vs id = some value) (here : vs other = some found)
    (ne : found ≠ value) : other ≠ id := by
  rintro rfl
  rw [here, Option.some.injEq] at there
  exact ne there

theorem update_none {change : Option α} (there : vs id = some value)
    (absent : vs other = none) : update vs id change other = none := by
  refine update_there ?_ absent
  rintro rfl
  rw [there] at absent
  cases absent

end

section

variable {ι α : Type} [DecidableEq ι] {lists : ι → List α} {key other : ι} {value : α}

theorem mem_append_at {found : α} :
    found ∈ update lists key (lists key ++ [value]) other ↔
      found ∈ lists other ∨ (other = key ∧ found = value) := by
  by_cases same : other = key
  · subst same; simp
  · simp [same]

theorem nodup_append_at (nodup : (lists other).Nodup) (absent : value ∉ lists key) :
    (update lists key (lists key ++ [value]) other).Nodup := by
  rw [update_apply]
  split_ifs with same
  · subst same
    exact nodup_append_comm.mpr (nodup_cons.mpr ⟨absent, nodup⟩)
  · exact nodup

theorem mem_erase_at [BEq α] [LawfulBEq α] {found : α} (ne : found ≠ value) :
    found ∈ update lists key ((lists key).erase value) other ↔ found ∈ lists other := by
  rw [update_apply]
  split_ifs with same
  · rw [same]
    exact mem_erase_of_ne ne
  · rfl

theorem erase_at_sublist [BEq α] :
    (update lists key ((lists key).erase value) other).Sublist (lists other) := by
  rw [update_apply]
  split_ifs with same
  · subst same
    exact erase_sublist
  · exact .refl _

end

/-! ### Tokens -/

section
variable {waiting : TaskId → Option (Wait V)} {home : TaskId → Option ExecutorId}
variable {id : TaskId} {executor : ExecutorId}

  {q : ChannelId → Side → List TaskId} {wait : WaitId → Option (SelectWait V)}
  {mailbox : ExecutorId → List (TaskId × Wake)} {held : List TaskId}

theorem queue_leave (q : ChannelId → Side → List TaskId) (channel : ChannelId) (side : Side)
    (id : TaskId) (other : ChannelId) (other' : Side) :
    (update q channel (update (q channel) side
      ((q channel side).erase id)) other other').Sublist (q other other') := by
  by_cases same : other = channel
  · subst same
    rw [update_self]
    exact erase_at_sublist
  · rw [update_of_ne same]

theorem Tokens.leave (ts : Tokens waiting home q wait mailbox held)
    {side : Side} (mem : id ∈ q channel side) :
    Tokens waiting home (update q channel (update (q channel) side
      ((q channel side).erase id))) wait mailbox (id :: held) := by
  have sub := queue_leave q channel side id
  obtain ⟨w, waits, source⟩ := ts.queued channel side id mem
  refine { ts with
    queued := fun c s t inside => ts.queued c s t ((sub c s).subset inside)
    queueNodup := fun c s => (ts.queueNodup c s).sublist (sub c s)
    parked := ?_, heldNodup := ?_, queuedFree := ?_, unclaimedFree := ?_ }
  · grind [ts.queuedFree, ts.parked]
  · grind [ts.queuedFree, ts.heldNodup]
  · intro c s t inside
    have before := ts.queuedFree c s t ((sub c s).subset inside)
    refine ⟨?_, before.2⟩
    rw [mem_cons, not_or]
    refine ⟨?_, before.1⟩
    rintro rfl
    obtain ⟨w', waits', source'⟩ := ts.queued c s t ((sub c s).subset inside)
    have same : w = w' := by rw [waits] at waits'; cases waits'; rfl
    subst same
    rw [source] at source'
    cases source'
    rw [update_self, update_self] at inside
    exact (ts.queueNodup channel side).not_mem_erase inside
  · intro other found there unsignaled
    have before := ts.unclaimedFree other found there unsignaled
    refine ⟨?_, before.2⟩
    rw [mem_cons, not_or]
    refine ⟨?_, before.1⟩
    rintro rfl
    rw [ts.unclaimed other found there unsignaled] at waits
    cases waits
    cases source

theorem Tokens.claim (ts : Tokens waiting home q wait mailbox held) {id : WaitId}
    (there : wait id = some found) (unclaimed : found.signaled = false)
    (alone : ∀ other found', wait other = some found' → found'.task = found.task → other = id) :
    Tokens waiting home q (update wait id (some { found with signaled := true }))
      mailbox (found.task :: held) := by
  have waits := ts.unclaimed id found there unclaimed
  have free := ts.unclaimedFree id found there unclaimed
  refine { ts with
    unclaimed := ?_, parked := ?_, heldNodup := ?_, queuedFree := ?_, unclaimedFree := ?_ }
  · grind [ts.unclaimed]
  · grind [ts.parked]
  · grind [ts.heldNodup]
  · intro c s t inside
    have before := ts.queuedFree c s t inside
    obtain ⟨w, waits', source⟩ := ts.queued c s t inside
    refine ⟨?_, before.2⟩
    rw [mem_cons, not_or]
    refine ⟨?_, before.1⟩
    rintro rfl
    rw [waits] at waits'
    cases waits'
    cases source
  · grind [ts.unclaimedFree]

theorem mem_update_mailbox {mailbox : ExecutorId → List (TaskId × Wake)}
    {mails : List (TaskId × Wake)} {other : ExecutorId} {mail : TaskId × Wake} :
    mail ∈ update mailbox executor mails other ↔
      (other = executor ∧ mail ∈ mails) ∨ (other ≠ executor ∧ mail ∈ mailbox other) := by
  by_cases same : other = executor
  · subst same; simp
  · simp [same]

/-- The task is in no place where a parked task waits. -/
structure Nowhere (queue : ChannelId → Side → List TaskId) (wait : WaitId → Option (SelectWait V))
    (mailbox : ExecutorId → List (TaskId × Wake)) (held : List TaskId) (id : TaskId) : Prop where
  unqueued : ∀ channel side, id ∉ queue channel side
  unheld : id ∉ held
  unmailed : ¬Mailed mailbox id
  unlisted : ∀ other found, wait other = some found → found.signaled = false → found.task ≠ id

theorem Tokens.nowhere (ts : Tokens waiting home q wait mailbox held)
    (idle : waiting id = none) : Nowhere q wait mailbox held id := by
  refine ⟨?_, ?_, ?_, ?_⟩
  · grind [ts.queued]
  · grind [ts.parked]
  · rintro ⟨e, m, mail⟩
    exact (ts.mailed e id m mail).1 idle
  · grind [ts.unclaimed]

/-- The wait of a task that is nowhere does not matter. -/
theorem Tokens.rewait (ts : Tokens waiting home q wait mailbox held)
    (nowhere : Nowhere q wait mailbox held id) (change : Option (Wait V)) :
    Tokens (update waiting id change) home q wait mailbox held := by
  have same : ∀ other, other ≠ id → update waiting id change other = waiting other :=
    fun other ne => update_of_ne ne ..
  refine { ts with queued := ?_, unclaimed := ?_, parked := ?_, mailed := ?_ }
  · intro c s t mem
    have ne : t ≠ id := fun equal => nowhere.unqueued c s (equal ▸ mem)
    rw [same t ne]
    exact ts.queued c s t mem
  · intro other found there unclaimed
    rw [same _ (nowhere.unlisted other found there unclaimed)]
    exact ts.unclaimed other found there unclaimed
  · intro t mem
    have ne : t ≠ id := fun equal => nowhere.unheld (equal ▸ mem)
    rw [same t ne]
    exact ts.parked t mem
  · intro e t m mail
    have ne : t ≠ id := fun equal => nowhere.unmailed ⟨e, m, equal ▸ mail⟩
    rw [same t ne]
    exact ts.mailed e t m mail

/-- A held task is woken by its own thread. -/
theorem Tokens.release (ts : Tokens waiting home q wait mailbox (id :: held)) :
    Tokens (update waiting id none) home q wait mailbox held := by
  have single := ts.heldNodup
  have fewer : Tokens waiting home q wait mailbox held := { ts with
    parked := fun t mem => ts.parked t (mem_cons_of_mem _ mem)
    heldNodup := single.of_cons
    queuedFree := by grind [ts.queuedFree]
    unclaimedFree := by grind [ts.unclaimedFree] }
  refine fewer.rewait ⟨?_, ?_, ?_, ?_⟩ none
  · exact fun c s mem => (ts.queuedFree c s id mem).1 mem_cons_self
  · exact (nodup_cons.mp single).1
  · exact (ts.parked id mem_cons_self).2
  · rintro other found there unclaimed rfl
    exact (ts.unclaimedFree other found there unclaimed).1 mem_cons_self

/-- A held task is woken through a mailbox. -/
theorem Tokens.post (ts : Tokens waiting home q wait mailbox (id :: held))
    (lives : home id = some executor) (st : Wake) :
    Tokens waiting home q wait
      (update mailbox executor (mailbox executor ++ [(id, st)])) held := by
  have parked := ts.parked id mem_cons_self
  have single := ts.heldNodup
  have mailed : ∀ other, Mailed (update mailbox executor
      (mailbox executor ++ [(id, st)])) other → other = id ∨ Mailed mailbox other := by
    rintro other ⟨e, m, mail⟩
    rcases mem_append_at.mp mail with inside | ⟨-, same⟩
    · exact .inr ⟨e, m, inside⟩
    · cases same; exact .inl rfl
  refine { ts with
    parked := ?_, heldNodup := single.of_cons, mailed := ?_, mailNodup := ?_, queuedFree := ?_,
    unclaimedFree := ?_ }
  · grind [ts.parked]
  · intro e other m mail
    rw [mem_update_mailbox, mem_append, mem_singleton] at mail
    grind [ts.mailed]
  · intro e
    by_cases same : e = executor
    · subst same
      rw [update_self, map_append, nodup_append]
      refine ⟨ts.mailNodup e, by simp, ?_⟩
      rintro other inside last mem rfl
      obtain ⟨⟨t, m⟩, mail, rfl⟩ := mem_map.mp inside
      obtain rfl : t = id := by simpa using mem
      exact parked.2 ⟨e, m, mail⟩
    · rw [update_of_ne same]
      exact ts.mailNodup e
  · grind [ts.queuedFree]
  · grind [ts.unclaimedFree]

section

variable (ts : Tokens waiting home q wait mailbox held)
include ts

theorem Tokens.receive
    {rest : List (TaskId × Wake)} (first : mailbox executor = (id, st) :: rest) :
    Tokens (update waiting id none) home q wait
      (update mailbox executor rest) held := by
  have here : (id, st) ∈ mailbox executor := by rw [first]; exact mem_cons_self
  have inside : ∀ e t m, (t, m) ∈ update mailbox executor rest e →
      (t, m) ∈ mailbox e ∧ t ≠ id := by
    intro e t m mail
    rw [mem_update_mailbox] at mail
    have single := ts.mailNodup executor
    rw [first, map_cons, nodup_cons] at single
    rcases mail with ⟨rfl, mail⟩ | ⟨ne, mail⟩
    · refine ⟨by rw [first]; exact mem_cons_of_mem _ mail, ?_⟩
      rintro rfl
      exact single.1 (mem_map.mpr ⟨(t, m), mail, rfl⟩)
    · refine ⟨mail, ?_⟩
      rintro rfl
      have one := (ts.mailed e t m mail).2
      rw [(ts.mailed executor t st here).2] at one
      cases one
      exact ne rfl
  have mailed : ∀ other, Mailed (update mailbox executor rest) other →
      Mailed mailbox other ∧ other ≠ id := by
    rintro other ⟨e, m, mail⟩
    obtain ⟨mail, ne⟩ := inside e other m mail
    exact ⟨⟨e, m, mail⟩, ne⟩
  have was : Mailed mailbox id := ⟨executor, st, here⟩
  have fewer : Tokens waiting home q wait (update mailbox executor rest) held :=
    { ts with
      parked := fun t mem =>
        ⟨(ts.parked t mem).1, fun mail => (ts.parked t mem).2 (mailed t mail).1⟩
      mailed := fun e t m mail => ts.mailed e t m (inside e t m mail).1
      mailNodup := by
        intro e
        have single := ts.mailNodup e
        by_cases same : e = executor
        · subst same
          rw [first, map_cons, nodup_cons] at single
          rw [update_self]
          exact single.2
        · rw [update_of_ne same]
          exact single
      queuedFree := by grind [ts.queuedFree]
      unclaimedFree := by grind [ts.unclaimedFree] }
  refine fewer.rewait ⟨?_, ?_, ?_, ?_⟩ none
  · exact fun c s mem => (ts.queuedFree c s id mem).2 was
  · exact fun mem => (ts.parked id mem).2 was
  · exact fun mail => (mailed id mail).2 rfl
  · rintro other found there unclaimed rfl
    exact (ts.unclaimedFree other found there unclaimed).2 was

theorem Tokens.enter
    (idle : waiting id = none) {side : Side} {parked : Wait V}
    (source : parked.source = .queue side channel) :
    Tokens (update waiting id (some parked)) home (update q channel
      (update (q channel) side (q channel side ++ [id]))) wait mailbox held := by
  have nowhere := ts.nowhere idle
  have inside : ∀ c s t, t ∈ update q channel (update (q channel) side
      (q channel side ++ [id])) c s →
      t ∈ q c s ∨ (t = id ∧ c = channel ∧ s = side) := by
    intro c s t mem
    by_cases same : c = channel
    · subst same
      rw [update_self, mem_append_at] at mem
      exact mem.imp_right fun ⟨same, equal⟩ => ⟨equal, rfl, same⟩
    · rw [update_of_ne same] at mem
      exact .inl mem
  have waits := ts.rewait nowhere (some parked)
  refine { waits with queued := ?_, queueNodup := ?_, queuedFree := ?_ }
  · intro c s t mem
    rcases inside c s t mem with before | ⟨rfl, rfl, rfl⟩
    · exact waits.queued c s t before
    · exact ⟨parked, update_self .., source⟩
  · intro c s
    by_cases same : c = channel
    · subst same
      rw [update_self]
      exact nodup_append_at (ts.queueNodup c s) (nowhere.unqueued c side)
    · rw [update_of_ne same]
      exact ts.queueNodup c s
  · intro c s t mem
    rcases inside c s t mem with before | ⟨rfl, -, -⟩
    · exact ts.queuedFree c s t before
    · exact ⟨nowhere.unheld, nowhere.unmailed⟩

theorem Tokens.enterSelect
    (parked : SelectWait V) (idle : waiting parked.task = none) (id : WaitId) :
    Tokens (update waiting parked.task (some (.select parked.context))) home q
      (update wait id (some parked)) mailbox held := by
  have nowhere := ts.nowhere idle
  have waits := ts.rewait nowhere (some (.select parked.context))
  refine { waits with unclaimed := ?_, unclaimedFree := ?_ }
  · intro other found there unclaimed
    rcases of_update there with ⟨rfl, ⟨⟩⟩ | ⟨same, there⟩
    · exact update_self ..
    · exact waits.unclaimed other found there unclaimed
  · intro other found there unclaimed
    rcases of_update there with ⟨rfl, ⟨⟩⟩ | ⟨_, there⟩
    · exact ⟨nowhere.unheld, nowhere.unmailed⟩
    · exact ts.unclaimedFree other found there unclaimed

theorem Tokens.changeWait (id : WaitId)
    {change : Option (SelectWait V)}
    (claimed : ∀ found, change = some found → found.signaled = true) :
    Tokens waiting home q (update wait id change) mailbox held := by
  refine { ts with unclaimed := ?_, unclaimedFree := ?_ }
  · grind [ts.unclaimed]
  · grind [ts.unclaimedFree]

theorem Tokens.settle
    (idle : waiting id = none) (executor : Option ExecutorId) :
    Tokens waiting (update home id executor) q wait mailbox held := by
  refine { ts with mailed := ?_ }
  intro e t m mail
  have before := ts.mailed e t m mail
  have ne : t ≠ id := fun same => before.1 (same ▸ idle)
  rw [update_of_ne ne]
  exact before

end

end

/-! ### Selects -/

section

variable {waiting waiting' : TaskId → Option (Wait V)} {home home' : TaskId → Option ExecutorId}
variable {found : SelectWait V} {cases : List (SelectCase V)} {id : WaitId} {task : TaskId}
variable {context deadline next : ℕ} {executor : ExecutorId}

  {woken woken' : TaskId → Option (Source × Wake)} {frame frame' : TaskId → Frame V}
  {wait : WaitId → Option (SelectWait V)} {selects : ExecutorId → List WaitId} {waits : ℕ}
  {result result' : Option TaskId}

theorem Selects.free_of_frame (kept : Selects waiting home woken frame wait selects waits result)
    (unselect : ∀ context cases deadline, frame task ≠ .select context cases deadline)
    (unclosing : ∀ context cases deadline id next st,
      frame task ≠ .closing context cases deadline id next st) (there : wait id = some found) :
    found.task ≠ task := by
  rintro rfl
  rcases kept.owner id found there with ⟨inside, -⟩ | ⟨-, _, _, inside, -⟩
  · exact unselect _ _ _ inside
  · exact unclosing _ _ _ _ _ _ inside

theorem Selects.free_of_atWork (kept : Selects waiting home woken frame wait selects waits none)
    {context deadline : ℕ} (inside : frame task = .select context cases deadline)
    (unparked : waiting task = none) (unwoken : woken task = none) (there : wait id = some found) :
    found.task ≠ task := by
  rintro rfl
  rcases kept.owner id found there with ⟨-, somewhere, -⟩ | ⟨-, _, _, closing, -⟩
  · simp [unparked, unwoken] at somewhere
  · rw [inside] at closing
    cases closing

section

variable (kept : Selects waiting home woken frame wait selects waits result)
include kept

theorem Selects.restate
    (keep : ∀ task, waiting task ≠ none ∨ woken task ≠ none ∨ result = some task →
      waiting' task ≠ none ∨ woken' task ≠ none ∨ result' = some task)
    (back : ∀ task, waiting' task ≠ none ∨ woken' task ≠ none →
      waiting task ≠ none ∨ woken task ≠ none) :
    Selects waiting' home woken' frame wait selects waits result' := by
  refine { kept with owner := ?_, has := ?_ }
  · intro id found there
    rcases kept.owner id found there with ⟨inside, somewhere, listed⟩ | closing
    · exact .inl ⟨inside, keep _ somewhere, listed⟩
    · exact .inr closing
  · intro task context cases deadline inside somewhere
    exact kept.has task context cases deadline inside (back task somewhere)

theorem Selects.change
    (free : ∀ id found, wait id = some found → found.task ≠ task)
    (same : ∀ other, other ≠ task → waiting' other = waiting other ∧ home' other = home other
      ∧ woken' other = woken other ∧ frame' other = frame other
      ∧ (result = some other → result' = some other))
    (select : ∀ context cases deadline, frame' task = .select context cases deadline →
      waiting' task = none ∧ woken' task = none)
    (unclosing : ∀ context cases deadline id next st,
      frame' task ≠ .closing context cases deadline id next st) :
    Selects waiting' home' woken' frame' wait selects waits result' := by
  refine { kept with owner := ?_, listed := ?_, has := ?_, closing := ?_ }
  · intro id found there
    obtain ⟨one, two, three, four, five⟩ := same _ (free id found there)
    rcases kept.owner id found there with ⟨inside, somewhere, listed⟩ | ⟨signaled, closing⟩
    · refine .inl ⟨by rw [four]; exact inside, ?_, by rw [two]; exact listed⟩
      rw [one, three]
      exact somewhere.imp_right (Or.imp_right five)
    · refine .inr ⟨signaled, ?_⟩
      rw [four]
      exact closing
  · intro executor id mem
    obtain ⟨found, there, lives, inside⟩ := kept.listed executor id mem
    obtain ⟨-, two, -, four, -⟩ := same _ (free id found there)
    exact ⟨found, there, by rw [two]; exact lives, by rw [four]; exact inside⟩
  · intro other context cases deadline inside somewhere
    by_cases equal : other = task
    · subst equal
      obtain ⟨one, two⟩ := select context cases deadline inside
      simp [one, two] at somewhere
    · obtain ⟨one, -, three, four, -⟩ := same other equal
      rw [one, three] at somewhere
      rw [four] at inside
      exact kept.has other context cases deadline inside somewhere
  · intro other context cases deadline id next st inside
    by_cases equal : other = task
    · subst equal
      exact (unclosing _ _ _ _ _ _ inside).elim
    · obtain ⟨-, -, -, four, -⟩ := same other equal
      rw [four] at inside
      exact kept.closing other context cases deadline id next st inside

/-- A task has one wait. -/
theorem Selects.apart (there : wait id = some found) {other : WaitId} {found' : SelectWait V}
    (there' : wait other = some found') (ne : other ≠ id) : found'.task ≠ found.task :=
  fun same => ne (kept.one other id found' found there' there same)

theorem Selects.unlisted (there : wait id = some found)
    (inside : frame found.task = .closing context cases deadline id next st)
    {other : WaitId} (mem : other ∈ selects executor) : other ≠ id := by
  rintro rfl
  obtain ⟨_, there', -, inside'⟩ := kept.listed executor other mem
  rw [there, Option.some.injEq] at there'
  subst there'
  rw [inside] at inside'
  cases inside'

/-- One wait changes, and what its task does with it. -/
theorem Selects.rewait (there : wait id = some found) {now : SelectWait V}
    {selects' : ExecutorId → List WaitId} (task : now.task = found.task)
    (frames : ∀ other, other ≠ found.task → frame' other = frame other)
    (results : ∀ other, other ≠ found.task → result = some other → result' = some other)
    (ms : ∀ executor other, other ≠ id →
      (other ∈ selects' executor ↔ other ∈ selects executor))
    (nodup : ∀ executor, (selects' executor).Nodup)
    (owner : Listed waiting home woken frame' selects' result' id now ∨ Closing frame' id now)
    (listed : ∀ executor, id ∈ selects' executor → home now.task = some executor
      ∧ frame' now.task = .select now.context (now.entries.map SelectEntry.operation) now.deadline)
    (closing : ∀ context cases deadline other next st,
      frame' found.task = .closing context cases deadline other next st → other = id) :
    Selects waiting home woken frame' (update wait id (some now)) selects' waits result' := by
  have before : ∀ other found', update wait id (some now) other = some found' →
      ∃ old, wait other = some old ∧ old.task = found'.task := by
    intro other found' new
    rcases of_update new with ⟨rfl, ⟨⟩⟩ | ⟨-, new⟩
    · exact ⟨found, there, task.symm⟩
    · exact ⟨found', new, rfl⟩
  -- A wait of another task is another wait.
  have apart' : ∀ {task place old}, task ≠ found.task → wait place = some old → old.task = task →
      update wait id (some now) place = some old := fun same was owns =>
    update_there (place_ne there was fun equal => same (equal ▸ owns.symm)) was
  refine ⟨fun other beyond => update_none there (kept.fresh other beyond), ?_, ?_, nodup, ?_, ?_, ?_⟩
  · intro other found' new
    rcases of_update new with ⟨rfl, ⟨⟩⟩ | ⟨same, new⟩
    · exact owner
    · have ne := kept.apart there new same
      rcases kept.owner other found' new with ⟨inside, somewhere, executor, lives, mem⟩ | closes
      · refine .inl ⟨(frames _ ne).trans inside, ?_, executor, lives,
          (ms _ _ same).mpr mem⟩
        exact somewhere.imp_right (Or.imp_right (results _ ne))
      · refine .inr ⟨closes.1, ?_⟩
        rw [frames _ ne]
        exact closes.2
  · intro executor other mem
    by_cases same : other = id
    · subst same
      exact ⟨now, update_self .., listed executor mem⟩
    · obtain ⟨found', there', lives, inside⟩ :=
        kept.listed executor other ((ms _ _ same).mp mem)
      exact ⟨found', update_there same there', lives,
        (frames _ (kept.apart there there' same)).trans inside⟩
  · intro one two found' found'' new new' same
    obtain ⟨old, was, owns⟩ := before one found' new
    obtain ⟨old', was', owns'⟩ := before two found'' new'
    exact kept.one one two old old' was was' (by rw [owns, owns', same])
  · intro other context cases deadline inside somewhere
    by_cases same : other = found.task
    · exact ⟨id, now, update_self .., task.trans same.symm⟩
    · rw [frames _ same] at inside
      obtain ⟨place, old, was, owns⟩ := kept.has other context cases deadline inside somewhere
      exact ⟨place, old, apart' same was owns, owns⟩
  · intro other context cases deadline place next st inside
    by_cases same : other = found.task
    · subst same
      rw [closing _ _ _ _ _ _ inside]
      exact ⟨now, update_self .., task⟩
    · rw [frames _ same] at inside
      obtain ⟨old, was, owns⟩ := kept.closing other context cases deadline place next st inside
      exact ⟨old, apart' same was owns, owns⟩

theorem Selects.claim
    (there : wait id = some found) :
    Selects waiting home woken frame
      (update wait id (some { found with signaled := true })) selects waits result := by
  refine kept.rewait there rfl (fun _ _ => rfl) (fun _ _ same => same) (fun _ _ _ => Iff.rfl)
    kept.nodup ((kept.owner id found there).imp_right fun closing => ⟨rfl, closing.2⟩) ?_ ?_
  · intro executor mem
    obtain ⟨_, there', listed⟩ := kept.listed executor id mem
    cases there.symm.trans there'
    exact listed
  · intro context cases deadline other next st inside
    obtain ⟨_, was, owns⟩ := kept.closing _ context cases deadline other next st inside
    exact kept.one other id _ found was there owns

end

theorem Selects.startClosing
    (kept : Selects waiting home woken frame wait selects waits (some task))
    (there : wait id = some found) (owns : found.task = task) (signaled : found.signaled = true)
    (lives : home task = some executor) {context deadline : ℕ}
    (inside : frame task = .select context cases deadline) (st : Wake) :
    Selects waiting home woken
      (update frame task (.closing context cases deadline id 0 st)) wait
      (update selects executor ((selects executor).erase id)) waits none := by
  subst owns
  have fits : Frame.select found.context (found.entries.map SelectEntry.operation) found.deadline
      = .select context cases deadline := by
    rcases kept.owner id found there with ⟨same, -⟩ | ⟨-, next, st, same, -⟩
    · rw [← same, inside]
    · rw [inside] at same
      cases same
  cases fits
  have unchanged : update wait id (some found) = wait := by
    rw [← there]
    exact update_eq_self id wait
  rw [← unchanged]
  refine kept.rewait there rfl (fun other ne => update_of_ne ne ..) ?_ ?_
    (fun place => (kept.nodup place).sublist erase_at_sublist)
    (.inr ⟨signaled, 0, st, update_self .., by simp⟩) ?_ ?_
  · intro other ne same
    cases same
    exact absurd rfl ne
  · exact fun place other ne => mem_erase_at ne
  · intro place mem
    obtain ⟨_, there', lives', -⟩ := kept.listed place id (erase_at_sublist.subset mem)
    cases there.symm.trans there'
    cases lives.symm.trans lives'
    rw [update_self] at mem
    exact absurd mem (kept.nodup executor).not_mem_erase
  · intro context' cases' deadline' other next status' closes
    rw [update_self] at closes
    cases closes
    rfl

section

variable (kept : Selects waiting home woken frame wait selects waits result)
include kept

theorem Selects.unlink
    (there : wait id = some found)
    (inside : frame found.task = .closing context cases deadline id next st)
    {entries : List (SelectEntry V)}
    (operations : entries.map SelectEntry.operation = found.entries.map SelectEntry.operation)
    (gone : ∀ place ≤ next, ∀ entry, entries[place]? = some entry → entry.registration = none) :
    Selects waiting home woken
      (update frame found.task (.closing context cases deadline id (next + 1) st))
      (update wait id (some { found with entries := entries })) selects waits result := by
  have closing : found.signaled = true ∧ found.context = context ∧ found.deadline = deadline
      ∧ found.entries.map SelectEntry.operation = cases := by
    rcases kept.owner id found there with ⟨same, -⟩ | ⟨signaled, next', status', same, -⟩
    · rw [inside] at same
      cases same
    · rw [inside] at same
      cases same
      exact ⟨signaled, rfl, rfl, rfl⟩
  obtain ⟨signaled, rfl, rfl, rfl⟩ := closing
  refine kept.rewait there rfl (fun other ne => update_of_ne ne ..)
    (fun _ _ same => same) (fun _ _ _ => Iff.rfl) kept.nodup (.inr ⟨signaled, next + 1, st, ?_,
      fun place small => gone place (by omega)⟩)
    (fun executor mem => absurd rfl (kept.unlisted there inside mem)) ?_
  · rw [update_self, operations]
  · intro context cases deadline other next' status' closes
    rw [update_self] at closes
    cases closes
    rfl

theorem Selects.freeWait
    (unparked : waiting task = none) (unwoken : woken task = none)
    (inside : frame task = .closing context cases deadline id next st)
    (new : ∀ other, result = some other → result' = some other) :
    Selects waiting home woken (update frame task (.select context cases deadline))
      (update wait id none) selects waits result' := by
  obtain ⟨found, there, rfl⟩ := kept.closing task context cases deadline id next st inside
  have left : ∀ other found', update wait id none other = some found' →
      wait other = some found' ∧ other ≠ id := by
    intro other found' now
    rcases of_update now with ⟨-, ⟨⟩⟩ | ⟨ne, now⟩
    exact ⟨now, ne⟩
  refine { kept with
    fresh := ?_, owner := ?_, listed := ?_, one := ?_, has := ?_, closing := ?_ }
  · intro other beyond
    by_cases same : other = id
    · subst same
      exact update_self ..
    · rw [update_of_ne same]
      exact kept.fresh other beyond
  · intro other found' now
    obtain ⟨was, ne⟩ := left other found' now
    have away := kept.apart there was ne
    rcases kept.owner other found' was with ⟨one, two, three⟩ | closing
    · refine .inl ⟨?_, two.imp_right (Or.imp_right (new _)), three⟩
      rw [update_of_ne away]
      exact one
    · refine .inr ⟨closing.1, ?_⟩
      rw [update_of_ne away]
      exact closing.2
  · intro executor other mem
    obtain ⟨found', there', lives, inside'⟩ := kept.listed executor other mem
    have ne := kept.unlisted there inside mem
    refine ⟨found', update_there ne there', lives, ?_⟩
    rw [update_of_ne (kept.apart there there' ne)]
    exact inside'
  · intro one two found' found'' now now' same
    exact kept.one one two found' found'' (left one found' now).1 (left two found'' now').1 same
  · intro task context' cases' deadline' inside' somewhere
    by_cases same : task = found.task
    · subst same
      simp [unparked, unwoken] at somewhere
    · rw [update_of_ne same] at inside'
      obtain ⟨other, old, was, owns⟩ := kept.has task context' cases' deadline' inside' somewhere
      have apart' : other ≠ id :=
        place_ne there was fun equal => same (equal ▸ owns.symm)
      exact ⟨other, old, update_there apart' was, owns⟩
  · intro task context' cases' deadline' other next' status' inside'
    rcases of_update inside' with ⟨-, ⟨⟩⟩ | ⟨same, inside'⟩
    obtain ⟨old, was, owns⟩ :=
      kept.closing task context' cases' deadline' other next' status' inside'
    have apart' : other ≠ id :=
      place_ne there was fun equal => same (equal ▸ owns.symm)
    exact ⟨old, update_there apart' was, owns⟩

theorem Selects.park
    (parked : SelectWait V) (free : ∀ id found, wait id = some found → found.task ≠ parked.task)
    (inside : frame parked.task = .select parked.context
      (parked.entries.map SelectEntry.operation) parked.deadline)
    (lives : home parked.task = some executor) (wait' : Wait V) :
    Selects (update waiting parked.task (some wait')) home woken frame
      (update wait waits (some parked))
      (update selects executor (selects executor ++ [waits])) (waits + 1) result := by
  have old : ∀ id found, wait id = some found → id ≠ waits := by
    rintro id found there rfl
    rw [kept.fresh id (Nat.le_refl id)] at there
    cases there
  have ms : ∀ place id, id ∈ update selects executor (selects executor ++ [waits])
      place ↔ id ∈ selects place ∨ (place = executor ∧ id = waits) :=
    fun place id => mem_append_at
  refine { kept with
    fresh := ?_, owner := ?_, listed := ?_, nodup := ?_, one := ?_, has := ?_, closing := ?_ }
  · intro id beyond
    have ne : id ≠ waits := by omega
    rw [update_of_ne ne]
    exact kept.fresh id (by omega)
  · intro id found there
    rcases of_update there with ⟨rfl, ⟨⟩⟩ | ⟨same, there⟩
    · refine .inl ⟨inside, by simp, executor, lives, ?_⟩
      rw [ms]
      exact .inr ⟨rfl, rfl⟩
    · rcases kept.owner id found there with ⟨one, two, place, three, four⟩ | closing
      · refine .inl ⟨one, ?_, place, three, (ms place id).mpr (.inl four)⟩
        rw [update_of_ne (free id found there)]
        exact two
      · exact .inr closing
  · intro place id mem
    rcases (ms place id).mp mem with before | ⟨rfl, rfl⟩
    · obtain ⟨found, there, one, two⟩ := kept.listed place id before
      exact ⟨found, update_there (old id found there) there, one, two⟩
    · exact ⟨parked, update_self .., lives, inside⟩
  · refine fun place => nodup_append_at (kept.nodup place) fun mem => ?_
    obtain ⟨found, there, -⟩ := kept.listed executor waits mem
    exact old waits found there rfl
  · intro one two found found' there there' same
    rcases of_update there with ⟨new, ⟨⟩⟩ | ⟨-, was⟩
    · rcases of_update there' with ⟨new', -⟩ | ⟨-, there'⟩
      · rw [new, new']
      · exact absurd same.symm (free two found' there')
    · rcases of_update there' with ⟨rfl, ⟨⟩⟩ | ⟨_, there'⟩
      · exact absurd same (free one found was)
      · exact kept.one one two found found' was there' same
  · intro task context cases deadline inside' somewhere
    by_cases same : task = parked.task
    · subst same
      exact ⟨waits, parked, update_self .., rfl⟩
    · rw [update_of_ne same] at somewhere
      obtain ⟨id, found, there, owns⟩ := kept.has task context cases deadline inside' somewhere
      exact ⟨id, found, update_there (old id found there) there, owns⟩
  · intro task context cases deadline id next st inside'
    obtain ⟨found, there, owns⟩ := kept.closing task context cases deadline id next st inside'
    exact ⟨found, update_there (old id found there) there, owns⟩

end

end

/-! ### Registrations -/

section

variable {wait : WaitId → Option (SelectWait V)} {registered : ChannelId → List (WaitId × ℕ)}
variable {id : WaitId}

section

variable (kept : Registrations wait registered)
include kept

/-- One wait changes, and where it is registered. -/
theorem Registrations.rewait {now : SelectWait V} {registered' : ChannelId → List (WaitId × ℕ)}
    (others : ∀ channel other place, other ≠ id →
      ((other, place) ∈ registered' channel ↔ (other, place) ∈ registered channel))
    (known : ∀ channel place, (id, place) ∈ registered' channel ↔
      ∃ entry, now.entries[place]? = some entry ∧ entry.registration = some channel)
    (nodup : ∀ channel, (registered' channel).Nodup)
    (own : ∀ entry ∈ now.entries, ∀ channel, entry.registration = some channel →
      entry.operation.channel = channel)
    (whole : now.signaled = false → ∀ entry ∈ now.entries, ∃ x ∈ now.entries,
      x.registration = some entry.operation.channel)
    (short : now.entries.length < selectLimit) :
    Registrations (update wait id (some now)) registered' := by
  refine ⟨?_, nodup, ?_, ?_, ?_⟩
  · intro channel other place
    by_cases same : other = id
    · subst same
      simp [known]
    · rw [others channel other place same, kept.known, update_of_ne same]
  · intro other found entry channel there mem registration
    rcases of_update there with ⟨rfl, ⟨⟩⟩ | ⟨-, was⟩
    · exact own entry mem channel registration
    · exact kept.own other found entry channel was mem registration
  · intro other found entry there unclaimed mem
    rcases of_update there with ⟨rfl, ⟨⟩⟩ | ⟨-, was⟩
    · exact whole unclaimed entry mem
    · exact kept.whole other found entry was unclaimed mem
  · intro other found there
    rcases of_update there with ⟨rfl, ⟨⟩⟩ | ⟨-, was⟩
    · exact short
    · exact kept.short other found was

theorem Registrations.knownAt (there : wait id = some found) (channel : ChannelId) (p : ℕ) :
    (id, p) ∈ registered channel ↔
      ∃ entry, found.entries[p]? = some entry ∧ entry.registration = some channel := by
  rw [kept.known, there]
  simp

theorem Registrations.claim
    (there : wait id = some found) :
    Registrations (update wait id (some { found with signaled := true })) registered :=
  kept.rewait (fun _ _ _ _ => .rfl) (fun _ _ => kept.knownAt there ..) kept.nodup
    (fun entry mem channel => kept.own id found entry channel there mem) nofun
    (kept.short id found there)

theorem Registrations.unlink
    (there : wait id = some found) (signaled : found.signaled = true) {p : ℕ}
    {operation : SelectCase V}
    (here : found.entries[p]? = some ⟨operation, some channel⟩) :
    Registrations
      (update wait id
        (some { found with entries := found.entries.set p ⟨operation, none⟩ }))
      (update registered channel ((registered channel).erase (id, p))) := by
  refine kept.rewait (fun target other spot ne => ?_) (fun target spot => ?_)
    (fun target => (kept.nodup target).sublist erase_at_sublist) (fun entry mem target => ?_)
    (fun unclaimed => Bool.noConfusion (signaled.symm.trans unclaimed)) ?_
  · exact mem_erase_at fun same => ne (congrArg Prod.fst same)
  · by_cases same : spot = p
    · subst same
      have absent : (id, spot) ∉
          update registered channel ((registered channel).erase (id, spot)) target := by
        intro mem
        obtain ⟨_, here', registration⟩ := (kept.knownAt there ..).mp (erase_at_sublist.subset mem)
        cases here.symm.trans here'
        cases registration
        rw [update_self] at mem
        exact (kept.nodup channel).not_mem_erase mem
      rw [getElem?_set_self (List.getElem?_eq_some_iff.mp here).1]
      simp [absent]
    · rw [mem_erase_at fun equal => same (congrArg Prod.snd equal), kept.knownAt there,
        getElem?_set_ne (Ne.symm same)]
  · rcases mem_or_eq_of_mem_set mem with before | rfl
    · exact kept.own id found entry target there before
    · exact nofun
  · rw [length_set]
    exact kept.short id found there

theorem Registrations.freeWait
    (gone : ∀ found, wait id = some found → ∀ entry ∈ found.entries, entry.registration = none) :
    Registrations (update wait id none) registered := by
  have left : ∀ other found, update wait id none other = some found →
      wait other = some found := by
    intro other found now
    rcases of_update now with ⟨-, ⟨⟩⟩ | ⟨-, now⟩
    exact now
  refine ⟨?_, kept.nodup, ?_, ?_, ?_⟩
  · intro channel other place
    rw [kept.known]
    constructor
    · rintro ⟨found, entry, was, here, registration⟩
      have ne : other ≠ id := by
        rintro rfl
        rw [gone found was entry (mem_of_getElem? here)] at registration
        cases registration
      exact ⟨found, entry, update_there ne was, here, registration⟩
    · rintro ⟨found, entry, now, rest⟩
      exact ⟨found, entry, left other found now, rest⟩
  · exact fun other found entry channel now => kept.own other found entry channel (left other found now)
  · exact fun other found entry now => kept.whole other found entry (left other found now)
  · exact fun other found now => kept.short other found (left other found now)

theorem Registrations.park (parked : SelectWait V)
    (fresh : wait id = none) (short : parked.entries.length < selectLimit)
    {registered' : ChannelId → List (WaitId × ℕ)}
    (known : ∀ channel other place, (other, place) ∈ registered' channel ↔
      (other, place) ∈ registered channel ∨ (other = id ∧ ∃ entry,
        parked.entries[place]? = some entry ∧ entry.registration = some channel))
    (nodup : ∀ channel, (registered' channel).Nodup)
    (own : ∀ entry ∈ parked.entries, ∀ channel, entry.registration = some channel →
      entry.operation.channel = channel)
    (whole : ∀ entry ∈ parked.entries, ∃ x ∈ parked.entries,
      x.registration = some entry.operation.channel) :
    Registrations (update wait id (some parked)) registered' := by
  refine kept.rewait (fun channel other place ne => ?_) (fun channel place => ?_) nodup own
    (fun _ => whole) short
  · simp [known, ne]
  · simp [known, kept.known, fresh]

end

end

/-! ### Endpoints -/

section

variable {frame frame' : TaskId → Frame V} {channel : ChannelId → Channel V} {channels : ℕ}

section

variable (kept : Endpoints frame channel channels)
include kept

theorem Endpoints.opened {id : ChannelId}
    (there : channel id ≠ .blank) : id < channels := by
  by_contra beyond
  exact there (kept.fresh id (Nat.le_of_not_lt beyond))

theorem Endpoints.reframe
    (used : ∀ task, ∀ endpoint ∈ (frame' task).endpoints, endpoint ∈ (frame task).endpoints
      ∨ 0 < (channel endpoint.2).endpoints endpoint.1) : Endpoints frame' channel channels := by
  refine { kept with used := ?_ }
  intro task endpoint mem
  rcases used task endpoint mem with before | there
  · exact kept.used task endpoint before
  · exact there

theorem Endpoints.retask {id : TaskId} {now : Frame V}
    (used : ∀ endpoint ∈ now.endpoints, endpoint ∈ (frame id).endpoints
      ∨ 0 < (channel endpoint.2).endpoints endpoint.1) :
    Endpoints (update frame id now) channel channels := by
  refine kept.reframe fun task endpoint mem => ?_
  by_cases same : task = id
  · subst same
    rw [update_self] at mem
    exact used endpoint mem
  · rw [update_of_ne same] at mem
    exact .inl mem

theorem Endpoints.changeChannel {id channels' : ChannelId} (more : channels ≤ channels')
    (inside : id < channels') {t : Channel V}
    (used : ∀ side, (∃ task, (side, id) ∈ (frame task).endpoints) → 0 < t.endpoints side)
    (live : 0 < t.senders ∨ 0 < t.receivers ∨ 0 < t.holds → t.live = true)
    (holds : t.holds = t.detached.length)
    (emptied : t.receivers = 0 → t.messages = []) :
    Endpoints frame (update channel id t) channels' := by
  refine ⟨?_, ?_, ?_, ?_, ?_⟩
  · rintro task ⟨side, other⟩ mem
    by_cases same : other = id
    · subst same
      rw [update_self]
      exact used side ⟨task, mem⟩
    · rw [update_of_ne same]
      exact kept.used task (side, other) mem
  · intro other
    rw [update_apply]
    split_ifs
    · exact live
    · exact kept.live other
  · intro other
    rw [update_apply]
    split_ifs
    · exact holds
    · exact kept.holds other
  · intro other
    rw [update_apply]
    split_ifs
    · exact emptied
    · exact kept.emptied other
  · intro other beyond
    have ne : other ≠ id := Nat.ne_of_gt (Nat.lt_of_lt_of_le inside beyond)
    exact update_there ne (kept.fresh other (Nat.le_trans more beyond))

theorem Endpoints.sameEndpoints {id : ChannelId}
    {t : Channel V} (inside : id < channels) (senders : t.senders = (channel id).senders)
    (receivers : t.receivers = (channel id).receivers)
    (held : t.holds = (channel id).holds) (detached : t.detached = (channel id).detached)
    (live : t.live = (channel id).live) (emptied : t.receivers = 0 → t.messages = []) :
    Endpoints frame (update channel id t) channels := by
  refine kept.changeChannel (Nat.le_refl _) inside ?_ ?_ ?_ emptied
  · rintro side ⟨task, mem⟩
    have before := kept.used task (side, id) mem
    cases side with
    | send => simpa [Channel.endpoints, senders] using before
    | receive => simpa [Channel.endpoints, receivers] using before
  · rw [senders, receivers, held, live]
    exact kept.live id
  · rw [held, detached]
    exact kept.holds id

theorem Endpoints.openChannel (capacity : ℕ) :
    Endpoints frame
      (update channel channels ⟨true, capacity, 0, 1, 1, 0, [], [], [], [], []⟩)
      (channels + 1) := by
  refine kept.changeChannel (Nat.le_succ _) (Nat.lt_succ_self _) ?_ (fun _ => rfl) rfl fun _ => rfl
  rintro side -
  cases side <;> simp [Channel.endpoints]

end

end

end FoundationLang.Runtime
