import Chip8.CommandLine.Headless
import Chip8.Proofs.Host.Calls
import Chip8.Proofs.Machine.Environment

/-!
# Headless runs

A headless run makes one step for each cycle that it was asked for, at a time computed from the
number of the step in 32 bits.  This file says exactly what it does.  `steady` is the machine that a
clock which always goes on would lead to: a cycle in each step, and behind it the counts of the
timers that its time brings.  The run follows it as long as the number of the step fits in 32 bits.
After that its clock starts again, and if there is a delay no later step attempts a cycle or counts
the timers.  `InTime` says of a step that it does, and `stepsInTime` is the number of those steps.

The main statement is `runMachine_exact`.  It rests on `step_paced` and `step_paced_of_late`, which
compute one step before and after the clock has started again, and on `runMachine_of_clean`, the
invariant of the run.  The file ends with a run whose last cycle is missing: that of a program which
goes round a loop (`steady_add_of_loop`) and is in another place of it then.
-/

namespace Chip8

namespace Session

variable {ρ : Type} [ByteSource ρ] {schedule : Nat → Moment}

/-- A session that has ended makes no more iterations. -/
theorem followFor_of_ne_resumed {s : Session ρ} (ended : s.ending ≠ .resumed) (count : Nat) :
    followFor schedule s count = s := by
  cases count with
  | zero => rfl
  | succ count => rw [followFor, if_neg ended]

/-- Iterations may be made in two portions. -/
theorem followFor_add (s : Session ρ) (first later : Nat) :
    followFor schedule s (first + later) =
      followFor schedule (followFor schedule s first) later := by
  induction first generalizing s with
  | zero => rw [Nat.zero_add, followFor]
  | succ first ih =>
    rw [Nat.succ_add, followFor, followFor]
    split
    · exact ih _
    · next ended => rw [followFor_of_ne_resumed ended]

/-- One more iteration is made last, if the session has not ended. -/
theorem followFor_succ {s : Session ρ} {count : Nat}
    (going : (followFor schedule s count).ending = .resumed) :
    followFor schedule s (count + 1) =
      (followFor schedule s count).next (schedule (followFor schedule s count).polls) := by
  rw [followFor_add, followFor, if_pos going, followFor]

end Session

namespace Headless

/-! ### Time -/

/-- How often the timers have been counted down by the time of step `k`. -/
def ticksBy (delay k : Nat) : Nat :=
  k * (delay * millisecond) / (pace delay).timerPeriod

/-- Whether step `k`, counted from zero, comes at its time: there is no delay, or the number of the
step fits in 32 bits. -/
def InTime (delay k : Nat) : Prop :=
  delay = 0 ∨ k + 1 < UInt32.size

instance (delay k : Nat) : Decidable (InTime delay k) :=
  inferInstanceAs (Decidable (_ ∨ _))

/-- How many of some steps come at their time. -/
def stepsInTime (delay steps : Nat) : Nat :=
  if delay = 0 then steps else min steps (UInt32.size - 1)

@[simp] theorem stepsInTime_zero (delay : Nat) : stepsInTime delay 0 = 0 := by
  unfold stepsInTime
  split <;> simp

theorem stepsInTime_le_succ (delay k : Nat) : stepsInTime delay k ≤ stepsInTime delay (k + 1) := by
  unfold stepsInTime
  split <;> omega

/-- Up to a step that is in time all steps are. -/
theorem stepsInTime_succ_of_inTime {delay k : Nat} (inTime : InTime delay k) :
    stepsInTime delay k = k ∧ stepsInTime delay (k + 1) = k + 1 := by
  unfold InTime at inTime
  unfold stepsInTime
  split <;> omega

/-- A step that is late adds none to those in time. -/
theorem stepsInTime_succ_of_late {delay k : Nat} (late : ¬ InTime delay k) :
    stepsInTime delay k = UInt32.size - 1 ∧ stepsInTime delay (k + 1) = UInt32.size - 1 := by
  unfold InTime at late
  unfold stepsInTime
  split <;> omega

theorem inTime_of_lt_stepsInTime {delay k steps : Nat} (h : k < stepsInTime delay steps) :
    InTime delay k ∧ k < steps := by
  unfold stepsInTime at h
  unfold InTime
  split at h <;> omega

/-- In time, the clock shows the delays up to the step. -/
theorem now_schedule_of_inTime {delay k : Nat} (inTime : InTime delay k) :
    (schedule delay k).now = ((k + 1) * (delay * millisecond) : Nat) := by
  rcases inTime with rfl | fits
  · simp [schedule]
  · simp only [schedule]
    rw [Nat.mod_eq_of_lt fits, Nat.mul_comm]

/-- The clock never shows more than the delays before the last number of 32 bits. -/
theorem now_schedule_le (delay k : Nat) :
    (schedule delay k).now ≤ ((UInt32.size - 1) * (delay * millisecond) : Nat) := by
  have fits : (k + 1) % UInt32.size ≤ UInt32.size - 1 :=
    Nat.le_sub_one_of_lt (Nat.mod_lt _ (by decide))
  simp only [schedule]
  rw [Nat.mul_comm]
  exact Int.ofNat_le.2 (Nat.mul_le_mul_right _ fits)

/-- The period of the timers does not depend on the delay, and is positive. -/
theorem timerPeriod_pos (delay : Nat) : 0 < (pace delay).timerPeriod := by
  have period : (pace delay).timerPeriod = 16666666 := rfl
  omega

theorem ticksBy_le (delay : Nat) {j k : Nat} (h : j ≤ k) : ticksBy delay j ≤ ticksBy delay k :=
  Nat.div_le_div_right (Nat.mul_le_mul_right _ h)

variable {ρ : Type} [ByteSource ρ]

/-! ### One step -/

/-- The machine after `k` steps of a clock that always goes on: a cycle in each step, and then the
counts of the timers that its time brings. -/
def steady (m : Machine ρ) (delay : Nat) : Nat → Machine ρ
  | 0 => m
  | k + 1 => (steady m delay k).cycle.machine.ticks (ticksBy delay (k + 1) - ticksBy delay k)

/-- The first `k` cycles succeed. -/
def Clean (m : Machine ρ) (delay k : Nat) : Prop :=
  ∀ j < k, (steady m delay j).cycle.fault = none

theorem Clean.mono {m : Machine ρ} {delay j k : Nat} (clean : Clean m delay k) (h : j ≤ k) :
    Clean m delay j :=
  fun i earlier => clean i (Nat.lt_of_lt_of_le earlier h)

/-- The host after `k` steps of a clock that always goes on. -/
def paced (m : Machine ρ) (delay k : Nat) : Host ρ where
  pace := pace delay
  machine := steady m delay k
  lastCycle := (k * (delay * millisecond) : Nat)
  lastTick := (ticksBy delay k * (pace delay).timerPeriod : Nat)

/-- No step presses a key. -/
theorem keypad_steady (m : Machine ρ) (delay k : Nat) :
    (steady m delay k).keypad = m.keypad := by
  induction k with
  | zero => rfl
  | succ k ih =>
    have counted (n : Machine ρ) (count : Nat) : (n.ticks count).keypad = n.keypad := rfl
    rw [steady, counted, Machine.keypad_cycle, ih]

/-- The poll of a device without keys leaves a host whose keys are released. -/
theorem accept_idle_paced {m : Machine ρ} (released : m.keypad = .released) (delay k : Nat) :
    (paced m delay k).accept .idle = paced m delay k := by
  have keys : (steady m delay k).keypad = .released := (keypad_steady m delay k).trans released
  simp only [Host.accept, Poll.idle, paced]
  rw [← keys]

/-- In time, a cycle is due in the next step. -/
theorem cycleDue_paced (m : Machine ρ) {delay k : Nat} (inTime : InTime delay k) :
    (paced m delay k).cycleDue (schedule delay k).now = true := by
  refine decide_eq_true ?_
  simp only [paced, pace, elapsed, now_schedule_of_inTime inTime, Nat.succ_mul]
  omega

/-- In time, a step attempts a cycle. -/
theorem step_paced_eq_attemptCycle {m : Machine ρ} (released : m.keypad = .released)
    {delay k : Nat} (inTime : InTime delay k) :
    (paced m delay k).step (schedule delay k) =
      (paced m delay k).attemptCycle (schedule delay k) := by
  have idle : (schedule delay k).poll = .idle := rfl
  rw [Host.step_of_due rfl (cycleDue_paced m inTime), idle, accept_idle_paced released]

/-- A cycle that fails ends the run. -/
theorem step_paced_of_fault {m : Machine ρ} (released : m.keypad = .released) {delay k : Nat}
    (inTime : InTime delay k) {f : Fault} (fault : (steady m delay k).cycle.fault = some f) :
    ((paced m delay k).step (schedule delay k)).ending = .failed (.fault f) := by
  have attempt := Host.attemptCycle_of_fault (h := paced m delay k) fault (schedule delay k)
  rw [step_paced_eq_attemptCycle released inTime, attempt]

/-- In time, the counts that a step owes are those that its time brings. -/
theorem ticksOwed_cycled_paced (m : Machine ρ) {delay k : Nat} (inTime : InTime delay k) :
    ((paced m delay k).cycled (schedule delay k).now).ticksOwed (schedule delay k).now =
      ticksBy delay (k + 1) - ticksBy delay k := by
  have passed : elapsed (ticksBy delay k * (pace delay).timerPeriod : Nat) (schedule delay k).now =
      (k + 1) * (delay * millisecond) - (pace delay).timerPeriod * ticksBy delay k := by
    rw [now_schedule_of_inTime inTime, Nat.mul_comm (pace delay).timerPeriod, elapsed]
    omega
  simp only [Host.ticksOwed, Host.lastTick_cycled, Host.pace_cycled, paced, passed]
  rw [Nat.sub_mul_div]
  rfl

/-- In time, a successful cycle and the counts lead to the next host. -/
theorem counted_cycled_paced (m : Machine ρ) {delay k : Nat} (inTime : InTime delay k) :
    ((paced m delay k).cycled (schedule delay k).now).counted
      (ticksBy delay (k + 1) - ticksBy delay k) = paced m delay (k + 1) := by
  have last : ((ticksBy delay k * (pace delay).timerPeriod : Nat) : Int) +
      ((ticksBy delay (k + 1) - ticksBy delay k : Nat) : Int) * (pace delay).timerPeriod =
      (ticksBy delay (k + 1) * (pace delay).timerPeriod : Nat) := by
    rw [← Int.natCast_mul, ← Int.natCast_add, ← Nat.add_mul,
      Nat.add_sub_cancel' (ticksBy_le delay (Nat.le_succ k))]
  simp only [Host.counted, Host.cycled, paced, last, now_schedule_of_inTime inTime, steady]

/-- In time, a step whose cycle succeeds makes the counts that its time brings, and goes on. -/
theorem step_paced {m : Machine ρ} (released : m.keypad = .released) {delay k : Nat}
    (inTime : InTime delay k) (clean : (steady m delay k).cycle.fault = none) :
    (paced m delay k).step (schedule delay k) =
      { host := paced m delay (k + 1), ending := .resumed, attempted := true
        presented := some (steady m delay k).cycle.machine.screen
        ticks := ticksBy delay (k + 1) - ticksBy delay k } := by
  have attempt := Host.attemptCycle_of_accepted (h := paced m delay k) clean
    (m := schedule delay k) rfl
  rw [step_paced_eq_attemptCycle released inTime, attempt,
    Host.countTimers_of_pos (timerPeriod_pos delay), ticksOwed_cycled_paced m inTime,
    counted_cycled_paced m inTime]
  rfl

/-- After the clock has started again, a step with a delay does nothing. -/
theorem step_paced_of_late {m : Machine ρ} (released : m.keypad = .released) {delay : Nat}
    (delayed : delay ≠ 0) (k : Nat) :
    (paced m delay (UInt32.size - 1)).step (schedule delay k) =
      { host := paced m delay (UInt32.size - 1), ending := .resumed } := by
  have shown := now_schedule_le delay k
  have pos : 0 < delay * millisecond := Nat.mul_pos (Nat.pos_of_ne_zero delayed) (by decide)
  have early : (paced m delay (UInt32.size - 1)).cycleDue (schedule delay k).now = false := by
    refine decide_eq_false ?_
    simp only [paced, pace, elapsed]
    omega
  have owed : (paced m delay (UInt32.size - 1)).ticksOwed (schedule delay k).now = 0 := by
    refine Nat.div_eq_of_lt ?_
    have last : (UInt32.size - 1) * (delay * millisecond) <
        ticksBy delay (UInt32.size - 1) * (pace delay).timerPeriod + (pace delay).timerPeriod :=
      Nat.lt_div_mul_add (timerPeriod_pos delay)
    have pos := timerPeriod_pos delay
    simp only [paced, elapsed]
    omega
  have idle : (schedule delay k).poll = .idle := rfl
  rw [Host.step_of_early rfl early, idle, accept_idle_paced released,
    Host.countTimers_of_pos (timerPeriod_pos delay), owed, Host.counted_zero]

/-- A step leads from the steps in time so far to those after it, and makes the counts that belong
between them. -/
theorem step_paced_stepsInTime {m : Machine ρ} (released : m.keypad = .released) {delay k : Nat}
    (clean : Clean m delay (stepsInTime delay (k + 1))) :
    let i := (paced m delay (stepsInTime delay k)).step (schedule delay k)
    i.host = paced m delay (stepsInTime delay (k + 1)) ∧ i.ending = .resumed ∧
      i.ticks =
        ticksBy delay (stepsInTime delay (k + 1)) - ticksBy delay (stepsInTime delay k) := by
  by_cases inTime : InTime delay k
  · obtain ⟨now, next⟩ := stepsInTime_succ_of_inTime inTime
    rw [next] at clean ⊢
    rw [now, step_paced released inTime (clean k (Nat.lt_succ_self k))]
    exact ⟨rfl, rfl, rfl⟩
  · obtain ⟨now, next⟩ := stepsInTime_succ_of_late inTime
    rw [now, next, step_paced_of_late released (fun zero => inTime (Or.inl zero)) k]
    exact ⟨rfl, rfl, (Nat.sub_self _).symm⟩

/-! ### The run -/

/-- A run that has not ended makes its next step at the moment of the schedule. -/
theorem runMachine_succ {m : Machine ρ} {delay k : Nat}
    (going : (runMachine m delay k).ending = .resumed) (polls : (runMachine m delay k).polls = k) :
    runMachine m delay (k + 1) = (runMachine m delay k).next (schedule delay k) := by
  have next := Session.followFor_succ going
  rwa [← runMachine, ← runMachine, polls] at next

/-- As long as all cycles in time succeed, a run stands where these have led it. -/
theorem runMachine_of_clean {m : Machine ρ} (released : m.keypad = .released) {delay k : Nat}
    (clean : Clean m delay (stepsInTime delay k)) :
    (runMachine m delay k).host = paced m delay (stepsInTime delay k) ∧
      (runMachine m delay k).ending = .resumed ∧ (runMachine m delay k).polls = k := by
  induction k with
  | zero =>
    refine ⟨?_, rfl, rfl⟩
    simp [runMachine, Session.followFor, Host.startingAt, paced, ticksBy, steady]
  | succ k ih =>
    obtain ⟨host, going, polls⟩ := ih (clean.mono (stepsInTime_le_succ delay k))
    obtain ⟨next, resumed, -⟩ := step_paced_stepsInTime released clean
    rw [runMachine_succ going polls, Session.host_next, Session.ending_next, Session.polls_next,
      host, polls]
    exact ⟨next, resumed, rfl⟩

/-- The calls of step `k` of a run, counted from zero; none if the run has ended before. -/
def stepCalls (m : Machine ρ) (delay k : Nat) : List HostCall :=
  if (runMachine m delay k).ending = .resumed then
    (runMachine m delay k).host.calls (schedule delay k)
  else []

/-- The calls of the first `k` steps of a run, in order. -/
def callsBy (m : Machine ρ) (delay k : Nat) : List HostCall :=
  (List.range k).flatMap (stepCalls m delay)

theorem callsBy_succ (m : Machine ρ) (delay k : Nat) :
    callsBy m delay (k + 1) = callsBy m delay k ++ stepCalls m delay k := by
  simp [callsBy, List.range_succ]

/-- As long as all cycles in time succeed, the calls of a step are those of the host there. -/
theorem stepCalls_of_clean {m : Machine ρ} (released : m.keypad = .released) {delay k : Nat}
    (clean : Clean m delay (stepsInTime delay k)) :
    stepCalls m delay k = (paced m delay (stepsInTime delay k)).calls (schedule delay k) := by
  obtain ⟨host, going, -⟩ := runMachine_of_clean released clean
  rw [stepCalls, if_pos going, host]

/-- A step calls for a cycle if it is in time, and else for none. -/
theorem count_cycle_stepCalls {m : Machine ρ} (released : m.keypad = .released) {delay k : Nat}
    (clean : Clean m delay (stepsInTime delay k)) :
    (stepCalls m delay k).count .cycle = if InTime delay k then 1 else 0 := by
  rw [stepCalls_of_clean released clean, Host.count_cycle_calls]
  by_cases inTime : InTime delay k
  · have now := (stepsInTime_succ_of_inTime inTime).1
    rw [Host.attempted_step, now, cycleDue_paced m inTime, if_pos inTime]
    rfl
  · have now := (stepsInTime_succ_of_late inTime).1
    have step := step_paced_of_late released (fun zero => inTime (Or.inl zero)) k
    rw [now, step, if_neg inTime]
    rfl

/-- As long as all cycles in time succeed, a run makes all counts that the steps in time bring. -/
theorem count_tick_callsBy {m : Machine ρ} (released : m.keypad = .released) {delay k : Nat}
    (clean : Clean m delay (stepsInTime delay k)) :
    (callsBy m delay k).count .tick = ticksBy delay (stepsInTime delay k) := by
  induction k with
  | zero => simp [callsBy, ticksBy]
  | succ k ih =>
    have before := clean.mono (stepsInTime_le_succ delay k)
    obtain ⟨-, -, ticks⟩ := step_paced_stepsInTime released clean
    rw [callsBy_succ, List.count_append, ih before, stepCalls_of_clean released before,
      Host.count_tick_calls, ticks]
    exact Nat.add_sub_cancel' (ticksBy_le delay (stepsInTime_le_succ delay k))

/-- The first cycle that fails ends the run, whatever number of steps was asked for. -/
theorem runMachine_of_fault {m : Machine ρ} (released : m.keypad = .released) {delay k : Nat}
    (inTime : InTime delay k) (clean : Clean m delay k) {f : Fault}
    (fault : (steady m delay k).cycle.fault = some f) {steps : Nat} (asked : k < steps) :
    (runMachine m delay steps).ending = .failed (.fault f) := by
  have now := (stepsInTime_succ_of_inTime inTime).1
  have before : Clean m delay (stepsInTime delay k) := by rwa [now]
  obtain ⟨host, going, polls⟩ := runMachine_of_clean released before
  have failed : (runMachine m delay (k + 1)).ending = .failed (.fault f) := by
    rw [runMachine_succ going polls, Session.ending_next, host, now]
    exact step_paced_of_fault released inTime fault
  obtain ⟨more, rfl⟩ := Nat.exists_eq_add_of_lt asked
  have ended : (runMachine m delay (k + 1)).ending ≠ .resumed := by
    rw [failed]
    exact Ending.noConfusion
  have stays : Session.followFor (schedule delay) (runMachine m delay (k + 1)) more =
      runMachine m delay (k + 1) := Session.followFor_of_ne_resumed ended more
  rw [runMachine, Nat.add_right_comm, Session.followFor_add, ← runMachine, stays, failed]

/-- A step after the one whose cycle failed is not made. -/
theorem stepCalls_of_fault {m : Machine ρ} (released : m.keypad = .released) {delay k : Nat}
    (inTime : InTime delay k) (clean : Clean m delay k) {f : Fault}
    (fault : (steady m delay k).cycle.fault = some f) {later : Nat} (after : k < later) :
    stepCalls m delay later = [] := by
  have failed := runMachine_of_fault released inTime clean fault after
  rw [stepCalls, if_neg]
  rw [failed]
  exact Ending.noConfusion

/-- What a headless run does, for every program that fits in memory, every source of random bytes,
every delay and every number of cycles.  As long as the cycles in time succeed, each step makes its
calls one after the other until it ends.  It calls for one cycle if there is no delay or if its
number fits in 32 bits, and else for none; and the counts made in all steps so far are the whole
periods that have passed by the last step in time.  If all cycles in time succeed, the command
prints the screen after the last of them.  After the first cycle in time that fails no step is made,
and the command fails with its fault and prints nothing. -/
theorem runMachine_exact {program : List UInt8} {random : ρ} {m : Machine ρ}
    (boot : Machine.boot program random = .ok m) (delay cycles : Nat) :
    (∀ k, Clean m delay (stepsInTime delay k) →
      (∀ calls h' e, (runMachine m delay k).host.Proceeds (schedule delay k) .polling calls h' e ↔
        calls = stepCalls m delay k ∧
        h' = ((runMachine m delay k).host.step (schedule delay k)).host ∧
        e = ((runMachine m delay k).host.step (schedule delay k)).ending) ∧
      (runMachine m delay k).host.machine = steady m delay (stepsInTime delay k) ∧
      (stepCalls m delay k).count .cycle = (if InTime delay k then 1 else 0) ∧
      (callsBy m delay k).count .tick = ticksBy delay (stepsInTime delay k)) ∧
    (Clean m delay (stepsInTime delay cycles) →
      exitOf (runMachine m delay cycles) =
        { code := 0, output := (steady m delay (stepsInTime delay cycles)).screen.text }) ∧
    ∀ k < stepsInTime delay cycles, Clean m delay k →
      ∀ f, (steady m delay k).cycle.fault = some f →
        (∀ later, k < later → stepCalls m delay later = []) ∧
        exitOf (runMachine m delay cycles) = .failed (.fault f) "" := by
  have released : m.keypad = .released := by
    rw [(Machine.boot_eq_ok_iff.1 boot).2]
    rfl
  refine ⟨?_, ?_, ?_⟩
  · intro k clean
    obtain ⟨host, going, -⟩ := runMachine_of_clean released clean
    have pos : 0 < (runMachine m delay k).host.pace.timerPeriod := by
      rw [host]
      exact timerPeriod_pos delay
    refine ⟨?_, by rw [host]; rfl, count_cycle_stepCalls released clean,
      count_tick_callsBy released clean⟩
    intro calls h' e
    rw [stepCalls, if_pos going]
    exact Host.proceeds_iff pos
  · intro clean
    obtain ⟨host, going, -⟩ := runMachine_of_clean released clean
    simp only [exitOf, going, host]
    rfl
  · intro k asked clean f fault
    obtain ⟨inTime, before⟩ := inTime_of_lt_stepsInTime asked
    refine ⟨fun later after => stepCalls_of_fault released inTime clean fault after, ?_⟩
    simp only [exitOf, runMachine_of_fault released inTime clean fault before]

/-- A loop of one jump runs for five cycles, in which six periods of the timers pass, and a return
without a call fails at once. -/
theorem runMachine_exact_of_short_programs :
    let random := CyclicSource.ofPattern [7]
    let looping := Machine.fresh [0x12, 0x00] random
    let failing := Machine.fresh [0x00, 0xEE] random
    Machine.boot [0x12, 0x00] random = .ok looping ∧
    Machine.boot [0x00, 0xEE] random = .ok failing ∧
    (callsBy looping 20 5).count .tick = 6 ∧ (stepCalls looping 20 5).count .cycle = 1 ∧
    exitOf (runMachine looping 20 5) = { code := 0, output := Screen.blank.text } ∧
    exitOf (runMachine failing 20 5) = .failed (.fault (.stackUnderflow 0x200)) "" := by
  intro random looping failing
  have boots : Machine.boot [0x12, 0x00] random = .ok looping :=
    Machine.boot_eq_ok_iff.2 ⟨by decide, rfl⟩
  have bootsToo : Machine.boot [0x00, 0xEE] random = .ok failing :=
    Machine.boot_eq_ok_iff.2 ⟨by decide, rfl⟩
  have five : stepsInTime 20 5 = 5 := by decide
  have clean : Clean looping 20 (stepsInTime 20 5) := by
    rw [five]
    unfold Clean
    decide +kernel
  have screen : (steady looping 20 (stepsInTime 20 5)).screen = .blank := by decide +kernel
  have fault : (steady failing 20 0).cycle.fault = some (.stackUnderflow 0x200) := by
    decide +kernel
  obtain ⟨steps, prints, -⟩ := runMachine_exact boots 20 5
  obtain ⟨-, -, cycle, ticks⟩ := steps 5 clean
  obtain ⟨-, -, fails⟩ := runMachine_exact bootsToo 20 5
  have printed := prints clean
  rw [screen] at printed
  have failed := fails 0 (by decide) (fun j none => absurd none (Nat.not_lt_zero j)) _ fault
  exact ⟨boots, bootsToo, ticks.trans (by decide), cycle, printed, failed.2⟩

/-! ### A run that is too long -/

omit [ByteSource ρ] in
/-- Timers that have run down are not changed by further counts. -/
theorem ticks_of_stopped {m : Machine ρ} (delay : m.delay = 0) (sound : m.sound = 0)
    (count : Nat) : m.ticks count = m := by
  have stopped : countDown 0 count = 0 := by simp [countDown]
  have delayStays : countDown m.delay count = m.delay := by rw [delay, stopped]
  have soundStays : countDown m.sound count = m.sound := by rw [sound, stopped]
  rw [Machine.ticks, delayStays, soundStays]

/-- A machine that comes back to where it was, and whose timers do not run on the way, stays in this
loop for ever. -/
theorem steady_add_of_loop {m : Machine ρ} {delay start period : Nat} (pos : 0 < period)
    (stopped : ∀ j < period,
      let later := (steady m delay start).after (List.replicate (j + 1) .cycle)
      later.delay = 0 ∧ later.sound = 0)
    (back : (steady m delay start).after (List.replicate period .cycle) = steady m delay start)
    (k : Nat) : steady m delay (start + k) =
      (steady m delay start).after (List.replicate (k % period) .cycle) := by
  induction k with
  | zero => rw [Nat.zero_mod, Nat.add_zero, List.replicate_zero, Machine.after_nil]
  | succ k ih =>
    have inside := Nat.mod_lt k pos
    obtain ⟨delayed, sounding⟩ := stopped (k % period) inside
    have moved : (steady m delay start).after (List.replicate (k % period + 1) .cycle) =
        (steady m delay (start + k)).cycle.machine := by
      rw [List.replicate_succ', Machine.after_append, ih, Machine.after_cons, Machine.after_nil,
        Machine.perform]
    rw [moved] at delayed sounding
    rw [← Nat.add_assoc, steady, ticks_of_stopped delayed sounding, ← moved,
      ← Nat.mod_add_mod]
    by_cases last : k % period + 1 = period
    · rw [last, Nat.mod_self, back, List.replicate_zero, Machine.after_nil]
    · rw [Nat.mod_eq_of_lt (Nat.lt_of_le_of_ne inside last)]

/-- The command runs a program that could be loaded. -/
theorem run_of_boot {o : HeadlessOptions} {program : List UInt8} {entropy : UInt64}
    {m : Machine Keystream} (boot : Machine.boot program (randomSource o.seed entropy) = .ok m) :
    run o (.ok program) entropy = exitOf (runMachine m o.delay o.cycles) := by
  simp only [run, Machine.bootFile, boot]

/-- Equal texts show the same in the upper left corner. -/
theorem corner_of_text_eq {s t : Screen} (same : s.text = t.text) : s.pixel 0 0 = t.pixel 0 0 := by
  have chars := String.ofList_injective same
  have first : some (Screen.mark (s.pixel 0 0)) = some (Screen.mark (t.pixel 0 0)) :=
    congrArg List.head? chars
  cases hs : s.pixel 0 0 <;> cases ht : t.pixel 0 0 <;> simp_all [Screen.mark]

/-- A program that draws a glyph in the upper left corner and clears the screen, again and again. -/
def blinkingProgram : List UInt8 :=
  [0xA0, 0x50, 0x60, 0x00, 0xD0, 0x05, 0x00, 0xE0, 0x12, 0x04]

/-- The machine that is about to run the blinking program. -/
def blinking : Machine Keystream :=
  .fresh blinkingProgram (randomSource none 0)

/-- The machine some cycles after it has come to the loop of the blinking program. -/
def blinkingAround (j : Nat) : Machine Keystream :=
  (steady blinking 1 2).after (List.replicate j .cycle)

theorem blinkingAround_succ (j : Nat) :
    blinkingAround (j + 1) = (blinkingAround j).cycle.machine := by
  rw [blinkingAround, List.replicate_succ', Machine.after_append, Machine.after_cons,
    Machine.after_nil, Machine.perform, ← blinkingAround]

/-- In the loop nothing is stored to memory, no cycle fails and the timers do not run. -/
theorem quiet_blinkingAround : ∀ j < 3,
    (blinkingAround j).fetch.stores = false ∧ (blinkingAround j).cycle.fault = none ∧
    (blinkingAround (j + 1)).delay = 0 ∧ (blinkingAround (j + 1)).sound = 0 := by
  decide +kernel

theorem memory_blinkingAround {j : Nat} (inside : j ≤ 3) :
    (blinkingAround j).memory = (steady blinking 1 2).memory := by
  induction j with
  | zero => rfl
  | succ j ih =>
    obtain ⟨reads, -⟩ := quiet_blinkingAround j inside
    rw [blinkingAround_succ, Machine.memory_cycle_of_not_stores reads, ih (Nat.le_of_lt inside)]

/-- The loop takes three cycles. -/
theorem blinkingAround_three : blinkingAround 3 = steady blinking 1 2 := by
  have memory := memory_blinkingAround (Nat.le_refl 3)
  have others : (blinkingAround 3).registers = (steady blinking 1 2).registers ∧
      (blinkingAround 3).index = (steady blinking 1 2).index ∧
      (blinkingAround 3).pc = (steady blinking 1 2).pc ∧
      (blinkingAround 3).stack = (steady blinking 1 2).stack ∧
      (blinkingAround 3).delay = (steady blinking 1 2).delay ∧
      (blinkingAround 3).sound = (steady blinking 1 2).sound ∧
      (blinkingAround 3).keypad = (steady blinking 1 2).keypad ∧
      (blinkingAround 3).screen = (steady blinking 1 2).screen ∧
      (blinkingAround 3).random = (steady blinking 1 2).random := by
    decide +kernel
  obtain ⟨registers, index, pc, stack, delay, sound, keypad, screen, random⟩ := others
  exact Machine.ext memory registers index pc stack delay sound keypad screen random

/-- The machine goes round its loop for ever. -/
theorem steady_blinking (k : Nat) : steady blinking 1 (2 + k) = blinkingAround (k % 3) := by
  refine steady_add_of_loop (by decide) ?_ blinkingAround_three k
  intro j inside
  obtain ⟨-, -, stopped⟩ := quiet_blinkingAround j inside
  exact stopped

/-- No cycle of the blinking program fails. -/
theorem fault_steady_blinking (k : Nat) : (steady blinking 1 k).cycle.fault = none := by
  rcases Nat.lt_or_ge k 2 with early | late
  · have first : ∀ k < 2, (steady blinking 1 k).cycle.fault = none := by decide +kernel
    exact first k early
  · obtain ⟨i, rfl⟩ := Nat.exists_eq_add_of_le late
    obtain ⟨-, clean, -⟩ := quiet_blinkingAround (i % 3) (Nat.mod_lt i (by decide))
    rw [steady_blinking, clean]

/-- The blinking program, run for 2^32 cycles with a delay of a millisecond.  No cycle would fail,
and the last one would clear the screen; but at that step the clock has started again, no cycle is
called for, and the glyph is printed. -/
theorem last_cycle_missing_of_restarted_clock :
    Machine.boot blinkingProgram (randomSource none 0) = .ok blinking ∧
    (∀ k, (steady blinking 1 k).cycle.fault = none) ∧
    (stepCalls blinking 1 4294967295).count .cycle = 0 ∧
    (runCommand ["-c", "4294967296", "-d", "1", "blinking.ch8"] (fun _ => .ok blinkingProgram)
      0).output ≠ (steady blinking 1 4294967296).screen.text := by
  have boots : Machine.boot blinkingProgram (randomSource none 0) = .ok blinking :=
    Machine.boot_eq_ok_iff.2 ⟨by decide, rfl⟩
  have clean (k : Nat) : Clean blinking 1 k := fun j _ => fault_steady_blinking j
  have released : blinking.keypad = .released := rfl
  have missing : (stepCalls blinking 1 4294967295).count .cycle = 0 := by
    rw [count_cycle_stepCalls released (clean _)]
    decide
  refine ⟨boots, fault_steady_blinking, missing, ?_⟩
  have read : HeadlessOptions.parse? ["-c", "4294967296", "-d", "1", "blinking.ch8"] =
      some { cycles := 4294967296, delay := 1, program := "blinking.ch8" } := by
    decide +kernel
  obtain ⟨host, going, -⟩ := runMachine_of_clean (k := 4294967296) released (clean _)
  have inTime : stepsInTime 1 4294967296 = 2 + 4294967293 := by decide
  have printed : (runCommand ["-c", "4294967296", "-d", "1", "blinking.ch8"]
      (fun _ => .ok blinkingProgram) 0).output = (blinkingAround 1).screen.text := by
    have ran : run { cycles := 4294967296, delay := 1, program := "blinking.ch8" }
        (.ok blinkingProgram) 0 = exitOf (runMachine blinking 1 4294967296) :=
      run_of_boot boots
    simp only [runCommand, read]
    rw [ran, exitOf, going, host, inTime]
    simp only [paced, steady_blinking]
  have asked : steady blinking 1 4294967296 = blinkingAround 2 := steady_blinking 4294967294
  have corners : (blinkingAround 1).screen.pixel 0 0 = true ∧
      (blinkingAround 2).screen.pixel 0 0 = false := by
    decide +kernel
  obtain ⟨lit, dark⟩ := corners
  rw [printed, asked]
  intro same
  have corner := corner_of_text_eq same
  rw [lit, dark] at corner
  cases corner

end Headless

end Chip8
