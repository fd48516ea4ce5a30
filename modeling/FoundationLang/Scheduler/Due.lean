/-
**When a job is due.**

* `due`, `schedule` — the search for a minute that was missed, and a job over the ticks it is shown.
-/

import FoundationLang.Scheduler.Calendar

namespace FoundationLang.Scheduler

open Library Outcome

/-! ### Expressions -/

/-- A field of a parsed expression. Its value was found in the range. -/
inductive CronField (minimum maximum : ℕ)
  | any
  | exact (value : ℕ) (inRange : minimum ≤ value ∧ value ≤ maximum)

/-- A field of the schedule admits a value. -/
def fieldMatches {minimum maximum : ℕ} : CronField minimum maximum → ℕ → Bool
  | .any, _ => true
  | .exact expected _, value => expected == value

/-- `Cron`, as `Cron.Parse` makes it. -/
structure Cron where
  minute : CronField 0 59
  hour : CronField 0 23
  day : CronField 1 31
  month : CronField 1 12
  weekday : CronField 0 6

/-- `Cron.Matches`; an instant is its seconds. -/
def cronMatches (self : Cron) (instant : ℕ) : Outcome Empty Bool := do
  let parts ← utcParts instant
  .ok (fieldMatches self.minute parts.minute && fieldMatches self.hour parts.hour &&
    fieldMatches self.day parts.day && fieldMatches self.month parts.month &&
    fieldMatches self.weekday parts.weekday)

/-- The loop of `due`, with the steps that are left. -/
def dueFrom (cron : Cron) (previousMinute : ℕ) : ℕ → ℕ → Outcome Empty Bool
  | _, 0 => .ok false
  | offset, steps + 1 => do
    let candidate ← checked (previousMinute + offset)
    let found ← cronMatches cron (← checked (candidate * 60))
    if found then .ok true else dueFrom cron previousMinute (← checked (offset + 1)) steps

/-- The job is run now. -/
def due (cron : Cron) (instant : ℕ) : Option ℕ → Outcome Empty Bool
  | none => cronMatches cron instant
  | some previous =>
    let minute := instant / 60
    let previousMinute := previous / 60
    if minute ≤ previousMinute then .ok false
    else do
      let elapsed ← checkedSub minute previousMinute
      dueFrom cron previousMinute 1 (if elapsed > 2635200 then 2635200 else elapsed)

/-- One job in `runDue`, over ticks; the instants at which it is started. -/
def schedule (cron : Cron) : Option ℕ → List ℕ → Outcome Empty (List ℕ)
  | _, [] => .ok []
  | lastRun, instant :: ticks => do
    if ← due cron instant lastRun then
      let runs ← schedule cron (some instant) ticks
      .ok (instant :: runs)
    else schedule cron lastRun ticks

/-! ### The minutes of an expression -/

variable {cron : Cron} {instant previous : ℕ}

/-- **The expression has this minute**, counted from 1970. -/
def fires (cron : Cron) (minute : ℕ) : Bool :=
  let date := civil (minute / 1440)
  fieldMatches cron.minute (minute % 60) && fieldMatches cron.hour (minute / 60 % 24) &&
    fieldMatches cron.day date.day && fieldMatches cron.month date.month &&
    fieldMatches cron.weekday ((minute / 1440 + 4) % 7)

/-- **A minute for a run**: one of the expression since the last run, which the search reaches. -/
def Pending (cron : Cron) (instant : ℕ) : Option ℕ → Prop
  | none => fires cron (instant / 60) = true
  | some previous => ∃ minute, previous / 60 < minute ∧ minute ≤ instant / 60 ∧
      minute ≤ previous / 60 + 2635200 ∧ fires cron minute = true

theorem cronMatches_eq (cron : Cron) (range : instant < 2 ^ 64) :
    cronMatches cron instant = .ok (fires cron (instant / 60)) := by
  have hours : instant / 60 / 60 = instant / 3600 := by omega
  have days : instant / 60 / 1440 = instant / 86400 := by omega
  unfold cronMatches fires
  rw [utcParts_civil instant range, hours, days]
  rfl

theorem dueFrom_eq {minute last : ℕ} (range : last * 60 < 2 ^ 64) (steps : ℕ) : ∀ {i : ℕ},
    minute + i + steps ≤ last + 1 →
    ∃ found, dueFrom cron minute i steps = .ok found ∧
      (found = true ↔ ∃ step < steps, fires cron (minute + i + step) = true) := by
  induction steps with
  | zero => exact fun _ => ⟨false, rfl, by simp⟩
  | succ steps ih =>
    intro i inside
    have shift (step : ℕ) : minute + i + (step + 1) = minute + (i + 1) + step := by omega
    unfold dueFrom
    rw [checked_bind (by omega), checked_bind (by omega), cronMatches_eq cron (by omega),
      ok_bind, Nat.mul_div_cancel _ (by decide)]
    by_cases found : fires cron (minute + i) = true
    · rw [if_pos found]
      exact ⟨true, rfl, by simpa using ⟨0, by omega, found⟩⟩
    · obtain ⟨later, same, iff⟩ := @ih (i + 1) (by omega)
      rw [if_neg found, checked_bind (by omega)]
      refine ⟨later, same, iff.trans ⟨?_, ?_⟩⟩
      · rintro ⟨step, inside, fired⟩
        exact ⟨step + 1, by omega, by rwa [shift]⟩
      · rintro ⟨_ | step, inside, fired⟩
        · exact absurd fired found
        · exact ⟨step, by omega, by rwa [← shift]⟩

/-- **A job is due when a minute is pending.** -/
theorem due_pending (cron : Cron) (lastRun : Option ℕ) (range : instant < 2 ^ 64) :
    ∃ found, due cron instant lastRun = .ok found ∧ (found = true ↔ Pending cron instant lastRun) := by
  cases lastRun with
  | none => exact ⟨_, cronMatches_eq cron range, Iff.rfl⟩
  | some previous =>
    unfold due Pending
    dsimp only
    by_cases early : instant / 60 ≤ previous / 60
    · rw [if_pos early]
      refine ⟨false, rfl, by simp, ?_⟩
      rintro ⟨minute, after, before, _⟩
      omega
    · rw [if_neg early, checkedSub_bind (by omega)]
      obtain ⟨found, same, iff⟩ := @dueFrom_eq cron (previous / 60) (instant / 60) (by omega)
        (if instant / 60 - previous / 60 > 2635200 then 2635200 else instant / 60 - previous / 60) 1
        (by split_ifs <;> omega)
      refine ⟨found, same, iff.trans ⟨?_, ?_⟩⟩
      · rintro ⟨step, inside, fired⟩
        refine ⟨_, by omega, ?_, ?_, fired⟩ <;> split_ifs at inside <;> omega
      · rintro ⟨minute, after, before, near, fired⟩
        refine ⟨minute - previous / 60 - 1, by split_ifs <;> omega, ?_⟩
        rwa [show previous / 60 + 1 + (minute - previous / 60 - 1) = minute by omega]

theorem not_pending (cron : Cron) (instant : ℕ) : ¬Pending cron instant (some instant) := by
  rintro ⟨minute, after, before, _⟩
  omega

/-- The last run of a job behind some runs. -/
def latest (lastRun : Option ℕ) (runs : List ℕ) : Option ℕ :=
  runs.getLast?.or lastRun

theorem latest_cons (lastRun : Option ℕ) (instant : ℕ) (runs : List ℕ) :
    latest lastRun (instant :: runs) = latest (some instant) runs := by
  unfold latest
  rw [List.getLast?_cons]
  cases runs.getLast? <;> rfl

/-- **Ticks in two parts**: the second part starts from the last run of the first one. -/
theorem schedule_append {x : List ℕ} (y : List ℕ) : ∀ {lastRun : Option ℕ} {runs : List ℕ},
    schedule cron lastRun x = .ok runs → schedule cron lastRun (x ++ y)
      = schedule cron (latest lastRun runs) y >>= fun later => .ok (runs ++ later) := by
  induction x with
  | nil =>
    intro lastRun runs ran
    cases ran
    exact (bind_pure _).symm
  | cons instant ticks ih =>
    intro lastRun runs ran
    rw [List.cons_append, schedule]
    rw [schedule] at ran
    cases found : due cron instant lastRun with
    | error =>
      rw [found] at ran
      cases ran
    | ok found =>
      rw [found] at ran
      rw [ok_bind] at ran ⊢
      split_ifs at ran ⊢
      · obtain ⟨later, rest, same⟩ := bind_eq_ok.mp ran
        cases same
        rw [ih rest, latest_cons, bind_assoc]
        rfl
      · exact ih ran

/-- **The runs of a job.** They are some of the ticks, and each has a pending minute, which came behind
the run before it. -/
theorem schedule_runs (cron : Cron) (ticks : List ℕ) (range : ∀ instant ∈ ticks, instant < 2 ^ 64) :
    ∀ lastRun, ∃ runs, schedule cron lastRun ticks = .ok runs ∧ runs.Sublist ticks ∧
      List.IsChain (fun earlier later => ∃ instant, later = some instant ∧
        Pending cron instant earlier) (lastRun :: runs.map some) := by
  induction ticks with
  | nil => exact fun lastRun => ⟨[], rfl, .slnil, .singleton _⟩
  | cons instant ticks ih =>
    intro lastRun
    obtain ⟨small, later⟩ := List.forall_mem_cons.mp range
    obtain ⟨found, same, pending⟩ := due_pending cron lastRun small
    unfold schedule
    rw [same, ok_bind]
    cases found with
    | true =>
      obtain ⟨runs, ran, among, chain⟩ := ih later (some instant)
      rw [if_pos rfl, ran, ok_bind]
      exact ⟨_, rfl, among.cons_cons instant, .cons_cons ⟨instant, rfl, pending.mp rfl⟩ chain⟩
    | false =>
      obtain ⟨runs, ran, among, chain⟩ := ih later lastRun
      rw [if_neg Bool.false_ne_true, ran]
      exact ⟨runs, rfl, among.cons instant, chain⟩

/-- **After a tick nothing is pending** behind the last run. -/
theorem schedule_settled {s : List ℕ} {lastRun : Option ℕ} {earlier : List ℕ}
    (ran : schedule cron lastRun s = .ok earlier) (range : instant < 2 ^ 64) :
    ∃ runs, schedule cron lastRun (s ++ [instant]) = .ok runs ∧
      ¬Pending cron instant (latest lastRun runs) := by
  obtain ⟨found, same, pending⟩ := due_pending cron (latest lastRun earlier) range
  rw [schedule_append _ ran]
  simp only [schedule, same, ok_bind]
  cases found with
  | true =>
    refine ⟨earlier ++ [instant], rfl, ?_⟩
    rw [latest, List.getLast?_append]
    exact not_pending cron instant
  | false =>
    refine ⟨earlier, by simp, fun missed => ?_⟩
    exact Bool.false_ne_true (pending.mpr missed)

/-- **When a job is due, and what it does over ticks.** After every tick, nothing is pending behind the
last run up to there. -/
theorem due_schedule (cron : Cron) :
    (∀ instant previous : ℕ, instant < 2 ^ 64 → ∃ found,
      due cron instant (some previous) = .ok found ∧ (found = true ↔ ∃ minute,
        previous / 60 < minute ∧ minute ≤ instant / 60 ∧ minute ≤ previous / 60 + 2635200 ∧
        fires cron minute = true)) ∧
    ∀ ticks : List ℕ, (∀ instant ∈ ticks, instant < 2 ^ 64) → ∀ lastRun, ∃ runs,
      schedule cron lastRun ticks = .ok runs ∧ runs.Sublist ticks ∧
      List.IsChain (fun earlier later => ∃ instant, later = some instant ∧
        Pending cron instant earlier) (lastRun :: runs.map some) ∧
      ∀ before instant after, ticks = before ++ instant :: after → ∃ earlier,
        schedule cron lastRun (before ++ [instant]) = .ok earlier ∧ earlier <+: runs ∧
          ¬Pending cron instant (latest lastRun earlier) := by
  refine ⟨fun _ previous range => due_pending cron (some previous) range, fun ticks range lastRun => ?_⟩
  obtain ⟨runs, ran, among, chain⟩ := schedule_runs cron ticks range lastRun
  refine ⟨runs, ran, among, chain, ?_⟩
  rintro before instant after rfl
  obtain ⟨inside, later⟩ := List.forall_mem_append.mp range
  obtain ⟨_, first, -, -⟩ := schedule_runs cron before inside lastRun
  obtain ⟨earlier, settled, free⟩ := schedule_settled first (later instant (by simp))
  refine ⟨earlier, settled, ?_, free⟩
  rw [List.append_cons, schedule_append _ settled] at ran
  obtain ⟨rest, -, same⟩ := bind_eq_ok.mp ran
  cases same
  exact List.prefix_append _ _

/-- The 29 February that is a Sunday. -/
def leapSunday : Cron :=
  ⟨.any, .any, .exact 29 (by decide), .exact 2 (by decide), .exact 0 (by decide)⟩

theorem leapSunday_early {minute : ℕ} (early : minute ≤ 2635200) :
    fires leapSunday minute = false := by
  have all : ∀ day < 1831, cronMatches leapSunday (day * 86400) = .ok false := by decide +kernel
  have midnight := all (minute / 1440) (by omega)
  have start : minute / 1440 * 86400 / 60 / 1440 = minute / 1440 := by omega
  rw [cronMatches_eq leapSunday (by omega)] at midnight
  have never := Except.ok.inj midnight
  unfold fires at never ⊢
  rwa [start] at never

/-- **A minute behind the five years is missed.** After a run in 1970 the day comes in 1976. -/
theorem due_missed : ¬∀ (cron : Cron) (instant previous : ℕ), instant < 2 ^ 64 →
    (due cron instant (some previous) = .ok true ↔ ∃ minute, previous / 60 < minute ∧
      minute ≤ instant / 60 ∧ fires cron minute = true) := by
  intro exact
  have matched : cronMatches leapSunday 194400000 = .ok true := by decide
  rw [cronMatches_eq leapSunday (by decide)] at matched
  obtain ⟨found, same, pending⟩ := @due_pending 194400000 leapSunday (some 0) (by decide)
  have due := (exact leapSunday 194400000 0 (by decide)).mpr
    ⟨3240000, by decide, by decide, Except.ok.inj matched⟩
  rw [same] at due
  obtain ⟨minute, _, _, early, fires⟩ := pending.mp (Except.ok.inj due)
  rw [leapSunday_early (by omega)] at fires
  cases fires

end FoundationLang.Scheduler
