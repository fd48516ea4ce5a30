/-
**What holds of a channel between two steps.**

The buffer is never over its capacity. A parked receiver means that there is nothing to receive: no
message, no parked sender, but a live sender. A parked sender means that the buffer is full and that
there is a live receiver. And no unclaimed select is registered on a channel for which one of its
cases could proceed: no wake-up is lost.

Inside a step a channel may be `loud`, until its selects are signalled, or `closing`, until its queue
is emptied; what holds then is `Settles`.
-/

import FoundationLang.Runtime.StepEffects

namespace FoundationLang.Runtime

open List Function

variable {V : Type} {s after : Config V}
variable {task : TaskId} {record : Channel V} {state : State V} {id : WaitId} {kind : Side}
variable {channel : ChannelId}

/-- An unclaimed select is registered on a channel and has a case for it. -/
def Seeks (state : State V) (channel : ChannelId) (id : WaitId) (kind : Side) : Prop :=
  ∃ place found entry, (id, place) ∈ state.registered channel ∧ state.wait id = some found
    ∧ found.signaled = false ∧ entry ∈ found.entries ∧ entry.operation.channel = channel
    ∧ entry.operation.kind = kind

/-- The invariant of a channel with the selects that seek to send to it or to receive from it. -/
structure Settles (record : Channel V) (loud closing : Prop) (seeks : WaitId → Side → Prop) :
    Prop where
  counted : record.buffered = record.messages.length
  bounded : record.buffered ≤ record.capacity
  receiving : record.receiveQueue ≠ [] →
    record.messages = [] ∧ record.sendQueue = [] ∧ (record.senders = 0 → closing)
  sending : record.sendQueue ≠ [] →
    (record.receivers ≠ 0 → record.capacity ≤ record.buffered) ∧ (record.receivers = 0 → closing)
  seeksSend : ¬loud → ∀ id, seeks id .send →
    record.receivers ≠ 0 ∧ record.receiveQueue = [] ∧ record.capacity ≤ record.buffered
  seeksReceive : ¬loud → ∀ id, seeks id .receive →
    record.messages = [] ∧ record.sendQueue = [] ∧ record.senders ≠ 0
  apart : ¬loud → ∀ id other, seeks id .send → seeks other .receive → id = other

/-- Tasks leave the queues, selects are claimed. -/
theorem Settles.mono {next : Channel V} {loud closing loud' closing' : Prop}
    {seeks seeks' : WaitId → Side → Prop} (settles : Settles record loud closing seeks)
    (buffered : next.buffered = record.buffered) (messages : next.messages = record.messages)
    (capacity : next.capacity = record.capacity) (senders : next.senders = record.senders)
    (receivers : next.receivers = record.receivers)
    (sends : record.sendQueue = [] → next.sendQueue = [])
    (receives : record.receiveQueue = [] → next.receiveQueue = []) (louder : loud → loud')
    (closes : closing → closing') (fewer : ∀ id kind, seeks' id kind → seeks id kind) :
    Settles next loud' closing' seeks' := by
  refine ⟨?_, ?_, fun parked => ?_, fun parked => ?_, fun quiet id sought => ?_,
    fun quiet id sought => ?_, fun quiet id y one two => ?_⟩
  · rw [buffered, messages]
    exact settles.counted
  · rw [buffered, capacity]
    exact settles.bounded
  · obtain ⟨empty, unsent, closed⟩ := settles.receiving fun none => parked (receives none)
    rw [messages, senders]
    exact ⟨empty, sends unsent, fun none => closes (closed none)⟩
  · obtain ⟨full, closed⟩ := settles.sending fun none => parked (sends none)
    rw [receivers, capacity, buffered]
    exact ⟨full, fun none => closes (closed none)⟩
  · obtain ⟨alive, empty, full⟩ := settles.seeksSend (mt louder quiet) id (fewer id _ sought)
    rw [receivers, capacity, buffered]
    exact ⟨alive, receives empty, full⟩
  · obtain ⟨empty, unsent, alive⟩ := settles.seeksReceive (mt louder quiet) id (fewer id _ sought)
    rw [messages, senders]
    exact ⟨empty, sends unsent, alive⟩
  · exact settles.apart (mt louder quiet) id y (fewer id _ one) (fewer y _ two)

/-- While a channel is loud, nothing is said about selects. -/
theorem Settles.noisy {loud closing : Prop} {seeks : WaitId → Side → Prop} (noisy : loud)
    (counted : record.buffered = record.messages.length)
    (bounded : record.buffered ≤ record.capacity)
    (receiving : record.receiveQueue ≠ [] →
      record.messages = [] ∧ record.sendQueue = [] ∧ (record.senders = 0 → closing))
    (sending : record.sendQueue ≠ [] →
      (record.receivers ≠ 0 → record.capacity ≤ record.buffered)
        ∧ (record.receivers = 0 → closing)) : Settles record loud closing seeks :=
  ⟨counted, bounded, receiving, sending, fun quiet => absurd noisy quiet,
    fun quiet => absurd noisy quiet, fun quiet => absurd noisy quiet⟩

/-- Every channel is settled, as far as the step that runs has come. -/
def Settled (config : Config V) : Prop :=
  ∀ channel, Settles (config.state.channel channel) (channel ∈ config.loud)
    (channel ∈ config.closing) (Seeks config.state channel)

theorem Settled.change (settled : Settled s)
    (channels : after.state.channel = update s.state.channel channel record)
    (fewer : ∀ y id kind, y ≠ channel → Seeks after.state y id kind →
      Seeks s.state y id kind) (louder : ∀ y ∈ s.loud, y ∈ after.loud)
    (closes : ∀ y ∈ s.closing, y ∈ after.closing)
    (here : Settles record (channel ∈ after.loud) (channel ∈ after.closing)
      (Seeks after.state channel)) : Settled after := by
  intro y
  rw [channels]
  by_cases same : y = channel
  · subst same
    rw [update_self]
    exact here
  · rw [update_of_ne same]
    exact (settled y).mono rfl rfl rfl rfl rfl (fun none => none) (fun none => none)
      (louder y) (closes y) fun id kind => fewer y id kind same

theorem Settled.same (settled : Settled s) (channels : after.state.channel = s.state.channel)
    (fewer : ∀ y id kind, Seeks after.state y id kind → Seeks s.state y id kind)
    (loud : after.loud = s.loud) (closing : after.closing = s.closing) :
    Settled after := by
  intro y
  rw [channels, loud, closing]
  exact (settled y).mono rfl rfl rfl rfl rfl (fun none => none) (fun none => none)
    (fun inside => inside) (fun inside => inside) (fewer y)

theorem seeks_of_claim {y : WaitId} {found : SelectWait V} (there : state.wait id = some found)
    (seeks : Seeks (state.claim id) channel y kind) :
    Seeks state channel y kind := by
  rw [claim_eq there] at seeks
  obtain ⟨place, found', entry, reg, now, unclaimed, rest⟩ := seeks
  rcases of_update now with ⟨-, ⟨⟩⟩ | ⟨-, now⟩
  · cases unclaimed
  · exact ⟨place, found', entry, reg, now, unclaimed, rest⟩

theorem seeks_of_eq {next : State V}
    (reg : next.registered channel = state.registered channel)
    (waits : next.wait = state.wait) (seeks : Seeks next channel id kind) :
    Seeks state channel id kind := by
  obtain ⟨place, found, entry, mem, there, rest⟩ := seeks
  rw [reg] at mem
  rw [waits] at there
  exact ⟨place, found, entry, mem, there, rest⟩

theorem not_seeks (missed : selectCandidate channel kind state = none)
    (id : WaitId) : ¬Seeks state channel id kind := by
  rintro ⟨_, _, _, reg, there, unclaimed, mem, fits⟩
  exact candidate_none missed reg there unclaimed mem fits

theorem Settled.retask (settled : Settled s) (channels : after.state.channel = s.state.channel)
    (waits : after.state.wait = s.state.wait) (loud : after.loud = s.loud)
    (closing : after.closing = s.closing) : Settled after := by
  refine settled.same channels (fun y id kind => seeks_of_eq ?_ waits) loud closing
  exact congrArg Channel.selects (congrFun channels y)

theorem Settled.modify (settled : Settled s)
    (channels : after.state.channel = update s.state.channel channel record)
    (waits : after.state.wait = s.state.wait)
    (selects : record.selects = (s.state.channel channel).selects)
    (louder : ∀ y ∈ s.loud, y ∈ after.loud)
    (closes : ∀ y ∈ s.closing, y ∈ after.closing)
    (here : Settles record (channel ∈ after.loud) (channel ∈ after.closing)
      (Seeks s.state channel)) : Settled after := by
  have reg : after.state.registered = s.state.registered := by
    funext y
    unfold State.registered
    rw [channels]
    by_cases same : y = channel
    · subst same
      rw [update_self, selects]
    · rw [update_of_ne same]
  refine settled.change channels (fun y id kind _ => seeks_of_eq (congrFun reg y) waits)
    louder closes ?_
  exact here.mono rfl rfl rfl rfl rfl (fun none => none) (fun none => none) (fun inside => inside)
    (fun inside => inside) fun id kind => seeks_of_eq (congrFun reg channel) waits

/-! ### Messages -/

variable {channel : ChannelId} {c : Config V}

theorem Settled.noisy (settled : Settled s)
    (channels : after.state.channel = update s.state.channel channel record)
    (waits : after.state.wait = s.state.wait)
    (selects : record.selects = (s.state.channel channel).selects)
    (loud : after.loud = channel :: s.loud)
    (closes : ∀ y ∈ s.closing, y ∈ after.closing)
    (counted : record.buffered = record.messages.length)
    (bounded : record.buffered ≤ record.capacity)
    (receiving : record.receiveQueue ≠ [] → record.messages = [] ∧ record.sendQueue = []
      ∧ (record.senders = 0 → channel ∈ after.closing))
    (sending : record.sendQueue ≠ [] →
      (record.receivers ≠ 0 → record.capacity ≤ record.buffered)
        ∧ (record.receivers = 0 → channel ∈ after.closing)) : Settled after := by
  refine settled.modify channels waits selects (fun y inside => ?_) closes
    (.noisy ?_ counted bounded receiving sending)
  · rw [loud]
    exact mem_cons_of_mem _ inside
  · rw [loud]
    exact mem_cons_self

/-! ### Every effect -/

section

variable (settled : Settled s) {st : Wake}
include settled

theorem Settled.push {v : Parcel V}
    (queue : (s.state.channel channel).receiveQueue = [])
    (room : (s.state.channel channel).buffered < (s.state.channel channel).capacity) :
    Settled { s with
      state := (s.state.record (.entered channel v)).push channel v
      result := some (task, st), loud := channel :: s.loud } := by
  have here := settled channel
  refine settled.noisy rfl rfl rfl rfl (fun _ inside => inside) ?_ room
    (fun parked => absurd queue parked) fun parked => ?_
  · change (s.state.channel channel).buffered + 1
      = ((s.state.channel channel).messages ++ [v]).length
    rw [length_append, here.counted]
    rfl
  · obtain ⟨full, closed⟩ := here.sending parked
    exact ⟨fun alive => Nat.le_succ_of_le (full alive), closed⟩

theorem Settled.takeMessage {message : Parcel V} {rest : List (Parcel V)}
    (buffer : (s.state.channel channel).messages = message :: rest)
    (settles : (s.state.channel channel).sendQueue = []
      ∨ (s.state.channel channel).capacity ≤ (s.state.channel channel).buffered - 1) :
    Settled { s with
      state := s.state.takeMessage channel task message rest
      result := some (task, st), loud := channel :: s.loud } := by
  have here := settled channel
  have counted := here.counted
  rw [buffer, length_cons] at counted
  refine settled.noisy rfl rfl rfl rfl (fun _ inside => inside) (Nat.sub_eq_of_eq_add counted)
    (Nat.le_trans (Nat.sub_le _ _) here.bounded) (fun parked => ?_) fun parked => ?_
  · have empty := (here.receiving parked).1
    rw [buffer] at empty
    cases empty
  · exact ⟨fun _ => settles.resolve_left parked, (here.sending parked).2⟩

theorem Settled.takeRefill {message v : Parcel V}
    {rest : List (Parcel V)} {sender : TaskId} {others : List TaskId}
    {held : List (TaskId × Wake)}
    (buffer : (s.state.channel channel).messages = message :: rest)
    (queue : (s.state.channel channel).sendQueue = sender :: others) :
    Settled { s with
      state := ((s.state.takeMessage channel task message rest).setQueue .send channel
        others).push channel v
      held := held, result := some (task, st), loud := channel :: s.loud } := by
  have here := settled channel
  have counted := here.counted
  rw [buffer, length_cons] at counted
  have parked : (s.state.channel channel).sendQueue ≠ [] := by
    rw [queue]
    nofun
  have refilled : ((s.state.takeMessage channel task message rest).setQueue .send channel
      others).push channel v = { s.state.takeMessage channel task message rest with
        channel := update s.state.channel channel
          { s.state.channel channel with
            messages := rest ++ [v]
            buffered := (s.state.channel channel).buffered - 1 + 1
            sendQueue := others } } := by
    simp [State.takeMessage, State.setQueue, State.push, State.modifyChannel, Channel.setQueue,
      State.deliver, State.modifyTask, State.record]
  refine settled.noisy (congrArg State.channel refilled) rfl rfl rfl
    (fun _ inside => inside) ?_ ?_ (fun waits => ?_) fun _ => ?_
  · change _ - 1 + 1 = (_ ++ [v]).length
    rw [length_append, counted]
    rfl
  · change _ - 1 + 1 ≤ _
    rw [counted, Nat.add_sub_cancel, ← counted]
    exact here.bounded
  · have empty := (here.receiving waits).1
    rw [buffer] at empty
    cases empty
  · obtain ⟨full, closed⟩ := here.sending parked
    refine ⟨fun alive => ?_, closed⟩
    have full := full alive
    rw [counted, Nat.add_sub_cancel, ← counted]
    exact full

theorem Settled.parkSend {v : Parcel V}
    (blocked : SendBlocked s.state channel) :
    Settled { s with
      state := (s.state.record (.entered channel v)).parkIn .send channel task
        (.send channel v)
      loud := channel :: s.loud } := by
  have here := settled channel
  obtain ⟨alive, queue, -, full⟩ := blocked
  exact settled.noisy rfl rfl rfl rfl (fun _ inside => inside) here.counted here.bounded
    (fun parked => absurd queue parked) fun _ => ⟨fun _ => full, fun none => absurd none alive⟩

theorem Settled.parkReceive
    (blocked : ReceiveBlocked s.state channel) :
    Settled { s with
      state := s.state.parkIn .receive channel task (.receive channel)
      loud := channel :: s.loud } := by
  have here := settled channel
  obtain ⟨empty, queue, -, alive⟩ := blocked
  exact settled.noisy rfl rfl rfl rfl (fun _ inside => inside) here.counted here.bounded
    (fun _ => ⟨empty, queue, fun none => absurd none alive⟩) fun parked => absurd queue parked

theorem Settled.shorten (side : Side) (q : List TaskId)
    (channels : after.state.channel = (s.state.setQueue side channel q).channel)
    (waits : after.state.wait = s.state.wait) (loud : after.loud = s.loud)
    (closing : after.closing = s.closing)
    (shorter : (s.state.channel channel).queue side = [] → q = []) : Settled after := by
  refine settled.modify channels waits ?_ (fun y inside => ?_) (fun y inside => ?_)
    ((settled channel).mono ?_ ?_ ?_ ?_ ?_ ?_ ?_ (fun inside => ?_) (fun inside => ?_)
      fun _ _ sought => sought)
  · cases side <;> rfl
  · rw [loud]
    exact inside
  · rw [closing]
    exact inside
  · cases side <;> rfl
  · cases side <;> rfl
  · cases side <;> rfl
  · cases side <;> rfl
  · cases side <;> rfl
  · cases side with
    | send => exact shorter
    | receive => exact fun none => none
  · cases side with
    | send => exact fun none => none
    | receive => exact shorter
  · rw [loud]
    exact inside
  · rw [closing]
    exact inside

end

theorem seeks_parkSelect (tidy : Tidy c) {e : ExecutorId} {context deadline : ℕ}
    {cases : List (SelectCase V)}
    (seeks : Seeks (c.state.parkSelect task e context cases deadline) channel id kind) :
    id ≠ c.state.waits ∧ Seeks c.state channel id kind
      ∨ id = c.state.waits
        ∧ ∃ operation ∈ cases, operation.channel = channel ∧ operation.kind = kind := by
  let parked : State V := (c.state.modifyTask task fun task =>
    { task with wait := some (.select context) }).record (.parked task)
  have fresh : ∀ channel place, (c.state.waits, place) ∉ parked.registered channel := by
    intro channel place mem
    obtain ⟨found, entry, there, -⟩ := (tidy.registrations.known ..).mp mem
    rw [tidy.selects.fresh _ (Nat.le_refl _)] at there
    cases there
  obtain ⟨known, -⟩ := registerFrom_registered c.state.waits [] 0 cases parked
    (fun channel place mem => absurd mem (fresh channel place)) tidy.registrations.nodup
  obtain ⟨place, found, entry, mem, there, unclaimed, inside, fits⟩ := seeks
  by_cases same : id = c.state.waits
  · subst same
    refine .inr ⟨rfl, entry.operation, ?_, fits⟩
    change update c.state.wait _ _ _ = _ at there
    rw [update_self, Option.some.injEq] at there
    subst there
    have operations := registerFrom_operations c.state.waits [] 0 cases parked
    rw [← operations]
    exact mem_map_of_mem inside
  · refine .inl ⟨same, place, found, entry, ?_, ?_, unclaimed, inside, fits⟩
    · exact ((known channel id place).mp mem).resolve_right fun new => same new.1
    · change update c.state.wait _ _ _ = _ at there
      rw [update_of_ne same] at there
      exact there

section

variable (settled : Settled s)
include settled

theorem Settled.parkSelect (tidy : Tidy s) {e : ExecutorId}
    {context deadline : ℕ} {cases : List (SelectCase V)}
    (blocked : ∀ operation ∈ cases, Blocked s.state operation) :
    Settled { s with
      state := s.state.parkSelect task e context cases deadline } := by
  intro channel
  have here := settled channel
  have record := channel_parkSelect s.state task e context cases deadline channel
  have sends : ∀ operation ∈ cases, operation.channel = channel → operation.kind = .send →
      SendBlocked s.state channel := by
    intro operation inside same kind
    have waits := blocked operation inside
    cases operation with
    | send =>
      cases same
      exact waits
    | receive => cases kind
  have receives : ∀ operation ∈ cases, operation.channel = channel → operation.kind = .receive →
      ReceiveBlocked s.state channel := by
    intro operation inside same kind
    have waits := blocked operation inside
    cases operation with
    | send => cases kind
    | receive =>
      cases same
      exact waits
  rw [show ({ s with
    state := s.state.parkSelect task e context cases deadline } : Config V).state.channel
      channel = _ from record]
  refine ⟨here.counted, here.bounded, here.receiving, here.sending, fun quiet id seeks => ?_,
    fun quiet id seeks => ?_, fun quiet id y one two => ?_⟩
  · rcases seeks_parkSelect tidy seeks with ⟨-, old⟩ | ⟨-, operation, inside, same, kind⟩
    · exact here.seeksSend quiet id old
    · obtain ⟨alive, queue, -, full⟩ := sends operation inside same kind
      exact ⟨alive, queue, full⟩
  · rcases seeks_parkSelect tidy seeks with ⟨-, old⟩ | ⟨-, operation, inside, same, kind⟩
    · exact here.seeksReceive quiet id old
    · obtain ⟨empty, queue, -, alive⟩ := receives operation inside same kind
      exact ⟨empty, queue, alive⟩
  · rcases seeks_parkSelect tidy one with ⟨-, old⟩ | ⟨new, operation, inside, same, kind⟩
    · rcases seeks_parkSelect tidy two with ⟨-, old'⟩ | ⟨-, operation, inside, same, kind⟩
      · exact here.apart quiet id y old old'
      · exact absurd old (not_seeks (receives operation inside same kind).2.2.1 id)
    · rcases seeks_parkSelect tidy two with ⟨-, old'⟩ | ⟨new', -⟩
      · exact absurd old' (not_seeks (sends operation inside same kind).2.2.1 y)
      · exact new.trans new'.symm

theorem Settled.unlink {next : ℕ} {found : SelectWait V}
    {op : SelectCase V} (there : s.state.wait id = some found)
    (here : found.entries[next]? = some ⟨op, some channel⟩) :
    Settled { s with state := s.state.unlink id next found op channel } := by
  have fewer : ∀ other id' kind,
      Seeks (s.state.unlink id next found op channel) other id' kind →
      Seeks s.state other id' kind := by
    rintro other id' kind ⟨place, found', entry, mem, now, unclaimed, inside, fits⟩
    have mem' : (id', place) ∈ s.state.registered other := by
      rw [registered_unlink] at mem
      exact erase_at_sublist.subset mem
    rcases of_update now with ⟨rfl, ⟨⟩⟩ | ⟨-, now⟩
    · rcases mem_or_eq_of_mem_set inside with inside | rfl
      · exact ⟨place, found, entry, mem', there, unclaimed, inside, fits⟩
      · exact ⟨place, found, _, mem', there, unclaimed, mem_of_getElem? here, fits⟩
    · exact ⟨place, found', entry, mem', now, unclaimed, inside, fits⟩
  refine settled.change rfl (fun other id kind _ => fewer other id kind) (fun _ inside => inside)
    (fun _ inside => inside) ?_
  exact (settled channel).mono rfl rfl rfl rfl rfl (fun none => none) (fun none => none)
    (fun inside => inside) (fun inside => inside) (fewer channel)

theorem Settled.freeWait {result : Option (TaskId × Wake)}
    (channels : state.channel = s.state.channel)
    (waits : state.wait = update s.state.wait id none) :
    Settled { s with state := state, result := result } := by
  refine settled.same channels (fun y id' kind => ?_) rfl rfl
  rintro ⟨place, found, entry, mem, now, rest⟩
  rw [waits] at now
  rcases of_update now with ⟨-, ⟨⟩⟩ | ⟨-, now⟩
  refine ⟨place, found, entry, ?_, now, rest⟩
  change (id', place) ∈ (state.channel y).selects at mem
  rw [channels] at mem
  exact mem

theorem Settled.endpoints {change : Channel V → Channel V}
    (buffered : (change (s.state.channel channel)).buffered
      = (s.state.channel channel).buffered)
    (messages : (change (s.state.channel channel)).messages
      = (s.state.channel channel).messages)
    (capacity : (change (s.state.channel channel)).capacity
      = (s.state.channel channel).capacity)
    (queue : (change (s.state.channel channel)).queue = (s.state.channel channel).queue)
    (selects : (change (s.state.channel channel)).selects
      = (s.state.channel channel).selects)
    (senders : (change (s.state.channel channel)).senders = 0
      ↔ (s.state.channel channel).senders = 0)
    (receivers : (change (s.state.channel channel)).receivers = 0
      ↔ (s.state.channel channel).receivers = 0) :
    Settled { s with state := s.state.modifyChannel channel change } := by
  have here := settled channel
  have sends : (change (s.state.channel channel)).sendQueue
      = (s.state.channel channel).sendQueue := congrFun queue .send
  have receives : (change (s.state.channel channel)).receiveQueue
      = (s.state.channel channel).receiveQueue := congrFun queue .receive
  refine settled.modify rfl rfl selects (fun _ inside => inside) (fun _ inside => inside) ?_
  refine ⟨?_, ?_, ?_, ?_, fun quiet id sought => ?_, fun quiet id sought => ?_, here.apart⟩
  · rw [buffered, messages]
    exact here.counted
  · rw [buffered, capacity]
    exact here.bounded
  · rw [receives, messages, sends, senders]
    exact here.receiving
  · rw [sends, capacity, buffered]
    intro parked
    obtain ⟨full, closed⟩ := here.sending parked
    exact ⟨fun alive => full (mt receivers.mpr alive), fun none => closed (receivers.mp none)⟩
  · rw [ne_eq, receivers, receives, capacity, buffered]
    exact here.seeksSend quiet id sought
  · rw [messages, sends, ne_eq, senders]
    exact here.seeksReceive quiet id sought

theorem Settled.dropLastSender :
    Settled { s with
      state := s.state.modifyChannel channel fun channel => { channel with senders := 0 }
      loud := channel :: s.loud
      closing := channel :: s.closing } := by
  have here := settled channel
  refine settled.noisy rfl rfl rfl rfl (fun _ inside => mem_cons_of_mem _ inside) here.counted
    here.bounded (fun parked => ?_) fun parked => ?_
  · obtain ⟨empty, unsent, -⟩ := here.receiving parked
    exact ⟨empty, unsent, fun _ => mem_cons_self⟩
  · obtain ⟨full, -⟩ := here.sending parked
    exact ⟨full, fun _ => mem_cons_self⟩

theorem Settled.dropLastReceiver :
    Settled { s with
      state := s.state.modifyChannel channel fun channel =>
        { channel with receivers := 0 }.detach
      loud := channel :: s.loud
      closing := channel :: s.closing } := by
  have here := settled channel
  let record : Channel V := { s.state.channel channel with receivers := 0 }.detach
  obtain ⟨messages, buffered, _, _, receivers, sends, receives, selects⟩ :
      record.messages = [] ∧ record.buffered = 0
        ∧ record.capacity = (s.state.channel channel).capacity
        ∧ record.senders = (s.state.channel channel).senders ∧ record.receivers = 0
        ∧ record.sendQueue = (s.state.channel channel).sendQueue
        ∧ record.receiveQueue = (s.state.channel channel).receiveQueue
        ∧ record.selects = (s.state.channel channel).selects := by
    unfold record Channel.detach
    split_ifs with empty
    · exact ⟨empty, rfl, rfl, rfl, rfl, rfl, rfl, rfl⟩
    · exact ⟨rfl, rfl, rfl, rfl, rfl, rfl, rfl, rfl⟩
  refine settled.noisy rfl rfl selects rfl (fun _ inside => mem_cons_of_mem _ inside) ?_ ?_
    (fun parked => ?_) fun parked => ?_
  · change record.buffered = record.messages.length
    rw [buffered, messages]
    rfl
  · change record.buffered ≤ record.capacity
    rw [buffered]
    exact Nat.zero_le _
  · change record.receiveQueue ≠ [] at parked
    rw [receives] at parked
    obtain ⟨-, unsent, -⟩ := here.receiving parked
    exact ⟨messages, sends.trans unsent, fun _ => mem_cons_self⟩
  · exact ⟨fun alive => absurd receivers alive, fun _ => mem_cons_self⟩

theorem Settled.calm
    (signalled : ∀ id place, (id, place) ∈ (s.state.channel channel).selects →
      s.state.unclaimed id = false)
    (emptied : channel ∈ s.closing →
      ((s.state.channel channel).receiveQueue = []
          ∨ (s.state.channel channel).senders ≠ 0)
        ∧ ((s.state.channel channel).sendQueue = []
          ∨ (s.state.channel channel).receivers ≠ 0)) :
    Settled { s with
      loud := s.loud.filter (· ≠ channel)
      closing := s.closing.filter (· ≠ channel) } := by
  intro y
  have here := settled y
  by_cases same : y = channel
  · subst same
    have none : ∀ id kind, ¬Seeks s.state y id kind := by
      rintro id _ ⟨place, _, _, mem, there, unclaimed, -⟩
      have claimed := signalled id place mem
      rw [State.unclaimed, there] at claimed
      simp [unclaimed] at claimed
    refine ⟨here.counted, here.bounded, fun parked => ?_, fun parked => ?_,
      fun _ id sought => absurd sought (none id _), fun _ id sought => absurd sought (none id _),
      fun _ id y sought => absurd sought (none id _)⟩
    · obtain ⟨empty, unsent, closed⟩ := here.receiving parked
      refine ⟨empty, unsent, fun gone => ?_⟩
      exact absurd gone ((emptied (closed gone)).1.resolve_left parked)
    · obtain ⟨full, closed⟩ := here.sending parked
      refine ⟨full, fun gone => ?_⟩
      exact absurd gone ((emptied (closed gone)).2.resolve_left parked)
  · have keeps : ∀ list : List ChannelId, y ∈ list → y ∈ list.filter (· ≠ channel) :=
      fun list inside => mem_filter.mpr ⟨inside, by simpa using same⟩
    exact here.mono rfl rfl rfl rfl rfl (fun none => none) (fun none => none) (keeps _) (keeps _)
      fun _ _ sought => sought

theorem Settled.openChannel (tidy : Tidy s) (capacity : ℕ) :
    Settled { s with state := Runtime.openChannel capacity s.state } := by
  have blank := tidy.endpoints.fresh s.state.channels (Nat.le_refl _)
  have none : s.state.registered s.state.channels = [] := by
    rw [State.registered, blank]
    rfl
  have free : ∀ id kind, ¬Seeks s.state s.state.channels id kind := by
    rintro id _ ⟨_, _, _, mem, -⟩
    rw [none] at mem
    cases mem
  exact settled.modify rfl rfl none.symm (fun _ inside => inside) (fun _ inside => inside)
    ⟨rfl, Nat.zero_le _, fun parked => absurd rfl parked, fun parked => absurd rfl parked,
      fun _ id sought => absurd sought (free id _), fun _ id sought => absurd sought (free id _),
      fun _ id y sought => absurd sought (free id _)⟩

end

theorem endReceive_channel (id : TaskId) (st : Status) (state : State V) :
    (endReceive id st state).channel = state.channel
      ∧ (endReceive id st state).wait = state.wait := by
  unfold endReceive
  split_ifs
  · exact ⟨rfl, rfl⟩
  · exact ⟨State.channel_takeSlot .., State.wait_takeSlot ..⟩
  · exact ⟨rfl, rfl⟩

theorem endSelect_channel (id : TaskId) (cases : List (SelectCase V)) (st : Status)
    (selected : Option ℕ) (state : State V) :
    (endSelect id cases st selected state).channel = state.channel
      ∧ (endSelect id cases st selected state).wait = state.wait := by
  unfold endSelect
  split_ifs
  · exact ⟨rfl, rfl⟩
  · exact ⟨State.channel_takeSlot .., State.wait_takeSlot ..⟩
  · exact ⟨rfl, rfl⟩

/-- **No effect unsettles a channel.** -/
theorem Settled.effect (settled : Settled s) (tidy : Tidy s)
    (effect : Effect s after) : Settled after := by
  cases effect with
  | claim found =>
    exact settled.same rfl (fun _ _ _ => seeks_of_claim found) rfl rfl
  | wake held done =>
    obtain ⟨executor, -, ⟨-, rfl⟩ | ⟨-, rfl⟩⟩ := wake_ok done <;>
      exact settled.retask rfl rfl rfl rfl
  | receiveMail | refuse | takeWake | startClosing | begin | schedule | spawn =>
    exact settled.retask rfl rfl rfl rfl
  | @handReceiver channel v task receiver rest index idle atWork offers alive queue =>
    refine settled.shorten .receive rest rfl rfl rfl rfl fun none => ?_
    rw [show (s.state.channel channel).queue .receive = _ from queue] at none
    cases none
  | handSelect idle atWork offers alive queue candidate
  | takeSelect idle atWork wants buffer queue candidate =>
    exact settled.same rfl (fun _ _ _ => seeks_of_claim (candidate_some candidate).1) rfl rfl
  | push idle atWork offers alive queue room => exact settled.push queue room
  | takeMessage idle atWork wants buffer settles => exact settled.takeMessage buffer settles
  | takeRefill idle atWork wants buffer room alive queue =>
    exact settled.takeRefill buffer queue
  | @takeSender channel v task sender others index idle atWork wants buffer queue =>
    refine settled.shorten .send others rfl rfl rfl rfl fun none => ?_
    rw [show (s.state.channel channel).queue .send = _ from queue] at none
    cases none
  | parkSend idle running unwoken frame blocked => exact settled.parkSend blocked
  | parkReceive idle running unwoken frame blocked => exact settled.parkReceive blocked
  | parkSelect idle running unwoken home frame short blocked done =>
    rw [selectPark_eq running.2.1 unwoken] at done
    cases done
    exact settled.parkSelect tidy blocked
  | @withdraw channel side task =>
    have withdrawn : Settled { s with state := s.state.withdraw channel task } := by
      unfold State.withdraw
      split <;> exact settled.retask rfl rfl rfl rfl
    have same : (s.state.withdraw channel task).channel = s.state.channel := by
      unfold State.withdraw
      split <;> rfl
    refine withdrawn.shorten side _ rfl rfl rfl rfl fun none => ?_
    rw [show (s.state.withdraw channel task).channel channel = _ from congrFun same channel]
      at none
    rw [none]
    rfl
  | endSend ready frame final =>
    unfold endSend
    rw [if_neg final]
    exact settled.retask rfl rfl rfl rfl
  | endReceive =>
    exact settled.retask (endReceive_channel ..).1 (endReceive_channel ..).2 rfl rfl
  | endSelect =>
    exact settled.retask (endSelect_channel ..).1 (endSelect_channel ..).2 rfl rfl
  | unlink frame inside done =>
    obtain ⟨found, there, ⟨-, rfl⟩ | ⟨operation, channel, here, -, -, rfl⟩⟩ := unregister_ok done
    · exact settled.retask rfl rfl rfl rfl
    · exact (settled.unlink there here).retask rfl rfl rfl rfl
  | freeWait => exact settled.freeWait rfl rfl
  | openChannel => exact settled.openChannel tidy _
  | clone kind =>
    rcases kind with ⟨pos, rfl⟩ | ⟨pos, rfl⟩
    · exact settled.endpoints rfl rfl rfl rfl rfl ⟨nofun, by omega⟩ Iff.rfl
    · exact settled.endpoints rfl rfl rfl rfl rfl Iff.rfl ⟨nofun, by omega⟩
  | dropOne kind =>
    rcases kind with ⟨several, rfl⟩ | ⟨several, rfl⟩
    · exact settled.endpoints rfl rfl rfl rfl rfl (by dsimp only; omega) Iff.rfl
    · exact settled.endpoints rfl rfl rfl rfl rfl Iff.rfl (by dsimp only; omega)
  | dropLastSender => exact settled.dropLastSender
  | dropLastReceiver => exact settled.dropLastReceiver
  | @dropDetached channel messages =>
    rw [dropEach_eq]
    have dropped : Settled { s with
        state := s.state.recordAll (messages.map (.destroyed channel)) } :=
      settled.retask rfl rfl rfl rfl
    exact dropped.endpoints rfl rfl rfl rfl rfl Iff.rfl Iff.rfl
  | destroy => exact settled.endpoints rfl rfl rfl rfl rfl Iff.rfl Iff.rfl
  | calm signalled emptied => exact settled.calm signalled emptied

/-! ### Every run -/

theorem Settled.initial : Settled (Config.of (State.initial : State V)) := by
  intro channel
  refine ⟨rfl, Nat.le_refl 0, fun parked => absurd rfl parked, fun parked => absurd rfl parked, ?_, ?_,
    ?_⟩
  · rintro - id ⟨place, found, entry, mem, -⟩
    cases mem
  · rintro - id ⟨place, found, entry, mem, -⟩
    cases mem
  · rintro - _ _ ⟨_, _, _, mem, -⟩
    cases mem

theorem Reachable.settled (reached : Reachable state) : Settled (.of state) :=
  reached.invariant Settled .initial fun orderly settled effect => settled.effect orderly.tidy effect

/-- A case of a select that is registered on a channel could proceed there: a send finds a free
place, a parked receiver, another select that receives, or no receiver any more; a receive finds a
message, a parked sender, another select that sends, or no sender any more. -/
def CouldProceed (state : State V) (channel : ChannelId) (id : WaitId) : Side → Prop
  | .send =>
    (state.channel channel).receivers = 0 ∨ (state.channel channel).receiveQueue ≠ []
      ∨ (state.channel channel).messages.length < (state.channel channel).capacity
      ∨ ∃ other ≠ id, Seeks state channel other .receive
  | .receive =>
    (state.channel channel).senders = 0 ∨ (state.channel channel).sendQueue ≠ []
      ∨ (state.channel channel).messages ≠ [] ∨ ∃ other ≠ id, Seeks state channel other .send

/-- **The invariant of the channels between two steps.** -/
theorem channels_settled {state : State V} (reached : Reachable state) (channel : ChannelId) :
    (state.channel channel).buffered = (state.channel channel).messages.length
      ∧ (state.channel channel).buffered ≤ (state.channel channel).capacity
      ∧ ((state.channel channel).receiveQueue ≠ [] →
        (state.channel channel).messages = [] ∧ (state.channel channel).sendQueue = []
          ∧ 0 < (state.channel channel).senders)
      ∧ ((state.channel channel).sendQueue ≠ [] →
        (state.channel channel).buffered = (state.channel channel).capacity
          ∧ 0 < (state.channel channel).receivers)
      ∧ ∀ id kind, Seeks state channel id kind → ¬CouldProceed state channel id kind := by
  have here := reached.settled channel
  refine ⟨here.counted, here.bounded, fun parked => ?_, fun parked => ?_, fun id kind seeks => ?_⟩
  · obtain ⟨empty, unsent, closed⟩ := here.receiving parked
    exact ⟨empty, unsent, Nat.pos_of_ne_zero fun none => nomatch closed none⟩
  · obtain ⟨full, closed⟩ := here.sending parked
    have alive : (state.channel channel).receivers ≠ 0 := fun none => nomatch closed none
    exact ⟨Nat.le_antisymm here.bounded (full alive), Nat.pos_of_ne_zero alive⟩
  · cases kind with
    | send =>
      obtain ⟨alive, empty, full⟩ := here.seeksSend nofun id seeks
      have counted := here.counted
      rintro (gone | parked | room | ⟨other, ne, sought⟩)
      · exact alive gone
      · exact parked empty
      · exact Nat.not_lt_of_le (Nat.le_trans full (Nat.le_of_eq counted)) room
      · exact ne (here.apart nofun id other seeks sought).symm
    | receive =>
      obtain ⟨empty, unsent, alive⟩ := here.seeksReceive nofun id seeks
      rintro (gone | parked | waiting | ⟨other, ne, sought⟩)
      · exact alive gone
      · exact parked unsent
      · exact waiting empty
      · exact ne (here.apart nofun other id sought seeks)

/-- A state with a parked send and a select that is registered. -/
theorem channels_settled_handOver : ∃ state : State ℕ, runSteps handOver .initial = .ok state
    ∧ (state.channel 0).sendQueue = [1] ∧ (state.channel 0).selects = [(0, 1)]
    ∧ (state.channel 0).buffered = (state.channel 0).messages.length
    ∧ (state.channel 0).buffered ≤ (state.channel 0).capacity
    ∧ ((state.channel 0).receiveQueue ≠ [] →
      (state.channel 0).messages = [] ∧ (state.channel 0).sendQueue = []
        ∧ 0 < (state.channel 0).senders)
    ∧ ((state.channel 0).sendQueue ≠ [] →
      (state.channel 0).buffered = (state.channel 0).capacity ∧ 0 < (state.channel 0).receivers)
    ∧ ∀ id kind, Seeks state 0 id kind → ¬CouldProceed state 0 id kind := by
  obtain ⟨state, done, reached⟩ := reachable_handOver
  obtain ⟨parked, registered, -⟩ := parked_handOver done
  exact ⟨state, done, parked, registered, channels_settled reached 0⟩

/-- **Nothing is used when it is gone**, and a channel lists exactly the selects that are registered on
it. -/
theorem channels_owned {state : State V} (reached : Reachable state) :
    (∀ task, ∀ endpoint ∈ (state.task task).frame.endpoints, (state.channel endpoint.2).live = true)
      ∧ (∀ channel id place, (id, place) ∈ state.registered channel ↔ ∃ found entry,
        state.wait id = some found ∧ found.entries[place]? = some entry
          ∧ entry.registration = some channel)
      ∧ (∀ channel side, (state.queues channel side).Nodup)
      ∧ (∀ channel channel' side side' id, id ∈ state.queues channel side →
        id ∈ state.queues channel' side' → channel = channel' ∧ side = side')
      ∧ (∀ id other found found', state.wait id = some found → state.wait other = some found' →
        found.task = found'.task → id = other)
      ∧ ∀ channel side id found, state.wait id = some found →
        found.task ∈ state.queues channel side → found.signaled = true := by
  have tidy := reached.orderly.tidy
  have waits := tidy.tokens.queued
  refine ⟨fun task endpoint used => tidy.endpoints.live _ ?_, tidy.registrations.known,
    tidy.tokens.queueNodup, fun channel channel' side side' id parked parked' => ?_,
    tidy.selects.one, fun channel side id found there parked => ?_⟩
  · have counted := tidy.endpoints.used task endpoint used
    rcases endpoint with ⟨_ | _, channel⟩
    · exact .inl counted
    · exact .inr (.inl counted)
  · obtain ⟨wait, here, source⟩ := waits channel side id parked
    obtain ⟨wait', here', source'⟩ := waits channel' side' id parked'
    obtain rfl := Option.some.inj (here.symm.trans here')
    obtain ⟨rfl, rfl⟩ := Source.queue.inj (source.symm.trans source')
    exact ⟨rfl, rfl⟩
  · obtain ⟨wait, here, source⟩ := waits channel side found.task parked
    by_contra unclaimed
    have select := tidy.tokens.unclaimed id found there (Bool.not_eq_true _ ▸ unclaimed)
    obtain rfl := Option.some.inj (here.symm.trans select)
    cases source

theorem channels_owned_handOver : ∃ state : State ℕ, runSteps handOver .initial = .ok state
    ∧ (state.channel 0).sendQueue = [1] ∧ (state.channel 1).selects = [(0, 0)]
    ∧ ∀ channel side id found, state.wait id = some found →
      found.task ∈ state.queues channel side → found.signaled = true := by
  obtain ⟨state, done, reached⟩ := reachable_handOver
  obtain ⟨parked, -, registered⟩ := parked_handOver done
  exact ⟨state, done, parked, registered, (channels_owned reached).2.2.2.2.2⟩

end FoundationLang.Runtime
