/-
**Views of a state.**

What the tasks wait for, where they run, which wake they have and which operation they are inside,
as functions of the task, and the queues and the registrations of the channels; and what each change
does to the views.
-/

import FoundationLang.Runtime.Effects

namespace FoundationLang.Runtime

open Function

variable {V : Type}

namespace State

/-- What a task waits for. -/
def waiting (state : State V) (id : TaskId) : Option (Wait V) := (state.task id).wait

/-- Where a task runs. -/
def home (state : State V) (id : TaskId) : Option ExecutorId := (state.task id).executor

/-- The wake that a task has. -/
def woken (state : State V) (id : TaskId) : Option (Source × Wake) := (state.task id).wake

/-- The operation that a task is inside. -/
def frame (state : State V) (id : TaskId) : Frame V := (state.task id).frame

/-- The queues of a channel. -/
def queues (state : State V) (channel : ChannelId) : Side → List TaskId :=
  (state.channel channel).queue

/-- The registrations of a channel. -/
def registered (state : State V) (channel : ChannelId) : List (WaitId × ℕ) :=
  (state.channel channel).selects

/-! What the changes do to the views. -/

section

variable (s : State V) (id : TaskId) (channel : ChannelId)

section

variable (change : Task V → Task V)
include change

theorem waiting_modifyTask :
    (s.modifyTask id change).waiting
      = update s.waiting id (change (s.task id)).wait :=
  comp_update Task.wait s.task id _

theorem home_modifyTask :
    (s.modifyTask id change).home
      = update s.home id (change (s.task id)).executor :=
  comp_update Task.executor s.task id _

theorem woken_modifyTask :
    (s.modifyTask id change).woken
      = update s.woken id (change (s.task id)).wake :=
  comp_update Task.wake s.task id _

theorem frame_modifyTask :
    (s.modifyTask id change).frame
      = update s.frame id (change (s.task id)).frame :=
  comp_update Task.frame s.task id _

end

theorem waiting_modifyTask_of_eq {change : Task V → Task V}
    (same : (change (s.task id)).wait = (s.task id).wait) :
    (s.modifyTask id change).waiting = s.waiting := by
  rw [waiting_modifyTask, same]
  exact update_eq_self id s.waiting

theorem home_modifyTask_of_eq {change : Task V → Task V}
    (same : (change (s.task id)).executor = (s.task id).executor) :
    (s.modifyTask id change).home = s.home := by
  rw [home_modifyTask, same]
  exact update_eq_self id s.home

theorem woken_modifyTask_of_eq {change : Task V → Task V}
    (same : (change (s.task id)).wake = (s.task id).wake) :
    (s.modifyTask id change).woken = s.woken := by
  rw [woken_modifyTask, same]
  exact update_eq_self id s.woken

theorem frame_modifyTask_of_eq {change : Task V → Task V}
    (same : (change (s.task id)).frame = (s.task id).frame) :
    (s.modifyTask id change).frame = s.frame := by
  rw [frame_modifyTask, same]
  exact update_eq_self id s.frame

theorem queues_modifyChannel (change : Channel V → Channel V) :
    (s.modifyChannel channel change).queues
      = update s.queues channel (change (s.channel channel)).queue :=
  comp_update Channel.queue s.channel channel _

theorem registered_modifyChannel (change : Channel V → Channel V) :
    (s.modifyChannel channel change).registered
      = update s.registered channel (change (s.channel channel)).selects :=
  comp_update Channel.selects s.channel channel _

theorem queues_modifyChannel_of_eq {change : Channel V → Channel V}
    (same : (change (s.channel channel)).queue = (s.channel channel).queue) :
    (s.modifyChannel channel change).queues = s.queues := by
  rw [queues_modifyChannel, same]
  exact update_eq_self channel s.queues

theorem registered_modifyChannel_of_eq {change : Channel V → Channel V}
    (same : (change (s.channel channel)).selects = (s.channel channel).selects) :
    (s.modifyChannel channel change).registered = s.registered := by
  rw [registered_modifyChannel, same]
  exact update_eq_self channel s.registered

theorem queue_setQueue (r : Channel V) (queue : List TaskId) (side : Side) :
    (r.setQueue queue side).queue = update r.queue side queue := by
  funext y
  cases side <;> cases y <;> rfl

theorem queues_setQueue (side : Side) (q : List TaskId) :
    (s.setQueue side channel q).queues
      = update s.queues channel
        (update (s.queues channel) side q) := by
  rw [setQueue, queues_modifyChannel, queue_setQueue]
  rfl

theorem registered_setQueue (side : Side) (q : List TaskId) :
    (s.setQueue side channel q).registered = s.registered :=
  registered_modifyChannel_of_eq s channel (by cases side <;> rfl)

end

/-! ### Changes that leave the tasks alone, but for a slot -/

section

variable (s : State V) (channel : ChannelId) (receiver : TaskId) (message : Parcel V)
  (rest : List (Parcel V))

@[simp] theorem waiting_deliver :
    (s.deliver channel receiver message).waiting = s.waiting :=
  have same : (s.modifyTask receiver fun task => { task with slot := some message }).waiting
      = s.waiting := waiting_modifyTask_of_eq s receiver rfl
  same

@[simp] theorem woken_deliver : (s.deliver channel receiver message).woken = s.woken :=
  have same : (s.modifyTask receiver fun task => { task with slot := some message }).woken
      = s.woken := woken_modifyTask_of_eq s receiver rfl
  same

@[simp] theorem frame_deliver : (s.deliver channel receiver message).frame = s.frame :=
  have same : (s.modifyTask receiver fun task => { task with slot := some message }).frame
      = s.frame := frame_modifyTask_of_eq s receiver rfl
  same

@[simp] theorem waiting_takeMessage :
    (s.takeMessage channel receiver message rest).waiting = s.waiting :=
  waiting_deliver ..

@[simp] theorem woken_takeMessage :
    (s.takeMessage channel receiver message rest).woken = s.woken :=
  woken_deliver ..

@[simp] theorem frame_takeMessage :
    (s.takeMessage channel receiver message rest).frame = s.frame :=
  frame_deliver ..

end

section

variable (s : State V) (side : Side) (channel : ChannelId) (id : TaskId) (wait : Wait V)

@[simp] theorem woken_parkIn : (s.parkIn side channel id wait).woken = s.woken :=
  have same : (s.modifyTask id fun task => { task with wait := some wait }).woken
      = s.woken := woken_modifyTask_of_eq s id rfl
  same

@[simp] theorem frame_parkIn : (s.parkIn side channel id wait).frame = s.frame :=
  have same : (s.modifyTask id fun task => { task with wait := some wait }).frame
      = s.frame := frame_modifyTask_of_eq s id rfl
  same

@[simp] theorem waiting_parkIn :
    (s.parkIn side channel id wait).waiting = update s.waiting id (some wait) :=
  have same : (s.modifyTask id fun task => { task with wait := some wait }).waiting
      = update s.waiting id (some wait) := waiting_modifyTask s id _
  same

end

/-! ### The end of an operation -/

section

variable (s : State V) (id : TaskId)

@[simp] theorem waiting_leave : (s.leave id).waiting = s.waiting :=
  waiting_modifyTask_of_eq s id rfl

@[simp] theorem woken_leave : (s.leave id).woken = s.woken :=
  woken_modifyTask_of_eq s id rfl

@[simp] theorem frame_leave :
    (s.leave id).frame = update s.frame id .idle :=
  frame_modifyTask s id _

@[simp] theorem waiting_takeSlot : (s.takeSlot id).waiting = s.waiting := by
  unfold takeSlot
  split
  · have same : (s.modifyTask id fun task => { task with slot := none }).waiting
        = s.waiting := waiting_modifyTask_of_eq s id rfl
    exact same
  · rfl

@[simp] theorem woken_takeSlot : (s.takeSlot id).woken = s.woken := by
  unfold takeSlot
  split
  · have same : (s.modifyTask id fun task => { task with slot := none }).woken
        = s.woken := woken_modifyTask_of_eq s id rfl
    exact same
  · rfl

@[simp] theorem frame_takeSlot : (s.takeSlot id).frame = s.frame := by
  unfold takeSlot
  split
  · have same : (s.modifyTask id fun task => { task with slot := none }).frame
        = s.frame := frame_modifyTask_of_eq s id rfl
    exact same
  · rfl

@[simp] theorem channel_takeSlot : (s.takeSlot id).channel = s.channel := by
  unfold takeSlot
  split <;> rfl

@[simp] theorem wait_takeSlot : (s.takeSlot id).wait = s.wait := by
  unfold takeSlot
  split <;> rfl

theorem trace_takeSlot : (s.takeSlot id).trace
    = s.trace ++ ((s.task id).slot.map fun v => .received id v).toList := by
  unfold takeSlot
  cases held : (s.task id).slot with
  | none => simp
  | some => rfl

@[simp] theorem mailbox_takeSlot : (s.takeSlot id).mailbox = s.mailbox := by
  unfold takeSlot
  split <;> rfl

end

end State

end FoundationLang.Runtime
