import Chip8.Host.Step

/-!
# The calls of an iteration

An iteration of the host loop is a sequence of calls: the input device is polled, the machine runs
a cycle, the display is asked to show the screen, and the timers are counted down once for each
turn of a loop.  `Host.Proceeds` describes it call by call, with the loop as a loop: each rule makes
at most one call and says at which `Stage` the iteration goes on.

The main statement is `proceeds_iff`.  If the period of the timers is positive, an iteration comes
to an end in exactly one way: it makes the calls listed by `Host.calls`, and leaves the host and the
ending that `Host.step` computes at once.  `step_cases` lists what an iteration can do, and
`calls_eq_append` shows that the counts of the timers stand behind all other calls.
-/

namespace Chip8

/-- A call that a host makes to its devices or to its machine. -/
inductive HostCall where
  | poll
  | cycle
  /-- The display is asked to show a screen. -/
  | present (screen : Screen)
  | tick
deriving DecidableEq

/-- Where a host stands within an iteration. -/
inductive Stage where
  | polling
  | pacing
  | presenting
  | counting

namespace Host

variable {ρ : Type}

@[simp] theorem pace_accept (h : Host ρ) (p : Poll) : (h.accept p).pace = h.pace := by
  unfold accept
  split <;> rfl

@[simp] theorem lastCycle_accept (h : Host ρ) (p : Poll) :
    (h.accept p).lastCycle = h.lastCycle := by
  unfold accept
  split <;> rfl

@[simp] theorem lastTick_accept (h : Host ρ) (p : Poll) : (h.accept p).lastTick = h.lastTick := by
  unfold accept
  split <;> rfl

/-- A poll does not change whether a cycle is due. -/
@[simp] theorem cycleDue_accept (h : Host ρ) (p : Poll) (now : Int) :
    (h.accept p).cycleDue now = h.cycleDue now := by
  simp [cycleDue]

/-- The number of periods that have elapsed since the last count of the timers. -/
def ticksOwed (h : Host ρ) (now : Int) : Nat :=
  elapsed h.lastTick now / h.pace.timerPeriod

/-- The host after `turns` counts of the timers. -/
def counted (h : Host ρ) (turns : Nat) : Host ρ :=
  { h with
    machine := h.machine.ticks turns
    lastTick := h.lastTick + turns * h.pace.timerPeriod }

@[simp] theorem counted_zero (h : Host ρ) : h.counted 0 = h := by
  simp [counted]

@[simp] theorem lastCycle_counted (h : Host ρ) (turns : Nat) :
    (h.counted turns).lastCycle = h.lastCycle := rfl

@[simp] theorem lastTick_counted (h : Host ρ) (turns : Nat) :
    (h.counted turns).lastTick = h.lastTick + turns * h.pace.timerPeriod := rfl

/-- A further count may be made first. -/
theorem counted_succ (h : Host ρ) (turns : Nat) :
    ({ h with machine := h.machine.tick, lastTick := h.lastTick + h.pace.timerPeriod } :
      Host ρ).counted turns = h.counted (turns + 1) := by
  have machine : h.machine.tick.ticks turns = h.machine.ticks (turns + 1) := by
    rw [Machine.tick, ← Machine.ticks_add, Nat.add_comm]
  have last : h.lastTick + h.pace.timerPeriod + turns * h.pace.timerPeriod =
      h.lastTick + ((turns + 1 : Nat) : Int) * h.pace.timerPeriod := by
    rw [Int.natCast_succ, Int.add_mul, Int.one_mul]
    omega
  simp only [counted, machine, last]

/-- With a positive period the timers are counted down once for every period that has elapsed. -/
theorem countTimers_of_pos {h : Host ρ} (pos : 0 < h.pace.timerPeriod) (now : Int) :
    h.countTimers now =
      { host := h.counted (h.ticksOwed now), ending := .resumed, ticks := h.ticksOwed now } := by
  simp [countTimers, ticksDue, Nat.ne_of_gt pos, counted, ticksOwed]

/-- As long as no period has elapsed the timers are not counted down. -/
theorem countTimers_of_early {h : Host ρ} {now : Int}
    (early : elapsed h.lastTick now < h.pace.timerPeriod) :
    h.countTimers now = { host := h, ending := .resumed } := by
  have none : h.ticksOwed now = 0 := Nat.div_eq_of_lt early
  rw [countTimers_of_pos (Nat.zero_lt_of_lt early), none, counted_zero]

variable [ByteSource ρ]

/-- The host after an attempt at a cycle. -/
def cycled (h : Host ρ) (now : Int) : Host ρ :=
  { h with machine := h.machine.cycle.machine, lastCycle := now }

@[simp] theorem pace_cycled (h : Host ρ) (now : Int) : (h.cycled now).pace = h.pace := rfl

@[simp] theorem machine_cycled (h : Host ρ) (now : Int) :
    (h.cycled now).machine = h.machine.cycle.machine := rfl

@[simp] theorem lastCycle_cycled (h : Host ρ) (now : Int) : (h.cycled now).lastCycle = now := rfl

@[simp] theorem lastTick_cycled (h : Host ρ) (now : Int) :
    (h.cycled now).lastTick = h.lastTick := rfl

/-! ### What an iteration can do -/

/-- A failed cycle ends an attempt. -/
theorem attemptCycle_of_fault {h : Host ρ} {f : Fault} (fault : h.machine.cycle.fault = some f)
    (m : Moment) : h.attemptCycle m =
      { host := h.cycled m.now, ending := .failed (.fault f), attempted := true } := by
  simp only [attemptCycle, fault]
  rfl

/-- A refused frame ends an attempt. -/
theorem attemptCycle_of_refusal {h : Host ρ} (clean : h.machine.cycle.fault = none) {m : Moment}
    {cause : IoFailure} (refusal : m.refusal = some cause) : h.attemptCycle m =
      { host := h.cycled m.now, ending := .failed (.io cause), attempted := true } := by
  simp only [attemptCycle, clean, refusal]
  rfl

/-- After a cycle whose screen is accepted the timers are counted. -/
theorem attemptCycle_of_accepted {h : Host ρ} (clean : h.machine.cycle.fault = none) {m : Moment}
    (accepted : m.refusal = none) : h.attemptCycle m =
      { (h.cycled m.now).countTimers m.now with
        attempted := true, presented := some h.machine.cycle.machine.screen } := by
  simp only [attemptCycle, clean, accepted]
  rfl

/-- An iteration at which the delay has passed attempts a cycle. -/
theorem step_of_due {h : Host ρ} {m : Moment} (stays : m.poll.quit = false)
    (due : h.cycleDue m.now = true) : h.step m = (h.accept m.poll).attemptCycle m := by
  simp [step, stays, due]

/-- An iteration at which the delay has not passed counts the timers at once. -/
theorem step_of_early {h : Host ρ} {m : Moment} (stays : m.poll.quit = false)
    (early : h.cycleDue m.now = false) :
    h.step m = (h.accept m.poll).countTimers m.now := by
  simp [step, stays, early]

/-- The five ways of an iteration: it quits, its cycle fails, its frame is refused, it counts the
timers after a cycle, or it counts them without one. -/
theorem step_cases (h : Host ρ) (m : Moment) :
    let polled := h.accept m.poll
    (m.poll.quit = true ∧ h.step m = { host := polled, ending := .quit }) ∨
    (m.poll.quit = false ∧ h.cycleDue m.now = true ∧
      ∃ f, polled.machine.cycle.fault = some f ∧ h.step m =
        { host := polled.cycled m.now, ending := .failed (.fault f), attempted := true }) ∨
    (m.poll.quit = false ∧ h.cycleDue m.now = true ∧ polled.machine.cycle.fault = none ∧
      ∃ cause, m.refusal = some cause ∧ h.step m =
        { host := polled.cycled m.now, ending := .failed (.io cause), attempted := true }) ∨
    (m.poll.quit = false ∧ h.cycleDue m.now = true ∧ polled.machine.cycle.fault = none ∧
      m.refusal = none ∧ h.step m =
        { (polled.cycled m.now).countTimers m.now with
          attempted := true, presented := some polled.machine.cycle.machine.screen }) ∨
    (m.poll.quit = false ∧ h.cycleDue m.now = false ∧ h.step m = polled.countTimers m.now) := by
  intro polled
  cases quit : m.poll.quit with
  | true => exact Or.inl ⟨rfl, step_of_quit h quit⟩
  | false =>
    right
    cases due : h.cycleDue m.now with
    | false => exact Or.inr (Or.inr (Or.inr ⟨rfl, rfl, step_of_early quit due⟩))
    | true =>
      rw [step_of_due quit due]
      cases fault : polled.machine.cycle.fault with
      | some f => exact Or.inl ⟨rfl, rfl, f, rfl, attemptCycle_of_fault fault m⟩
      | none =>
        right
        cases refusal : m.refusal with
        | some cause =>
          exact Or.inl ⟨rfl, rfl, rfl, cause, rfl, attemptCycle_of_refusal fault refusal⟩
        | none =>
          exact Or.inr (Or.inl ⟨rfl, rfl, rfl, rfl, attemptCycle_of_accepted fault refusal⟩)

/-! ### Call by call -/

/-- `h.Proceeds m stage calls h' e` says that a host `h` which stands at `stage` in its iteration
at the moment `m` makes `calls` until the iteration ends, with the host `h'` and the ending `e`. -/
inductive Proceeds (m : Moment) : Host ρ → Stage → List HostCall → Host ρ → Ending → Prop
  | quit {h} (asked : m.poll.quit = true) :
      Proceeds m h .polling [.poll] (h.accept m.poll) .quit
  | polled {h calls h' e} (stays : m.poll.quit = false)
      (rest : Proceeds m (h.accept m.poll) .pacing calls h' e) :
      Proceeds m h .polling (.poll :: calls) h' e
  | early {h calls h' e} (early : elapsed h.lastCycle m.now < h.pace.cycleDelay)
      (rest : Proceeds m h .counting calls h' e) :
      Proceeds m h .pacing calls h' e
  | fault {h f} (due : h.pace.cycleDelay ≤ elapsed h.lastCycle m.now)
      (failed : h.machine.cycle.fault = some f) :
      Proceeds m h .pacing [.cycle] (h.cycled m.now) (.failed (.fault f))
  | cycle {h calls h' e} (due : h.pace.cycleDelay ≤ elapsed h.lastCycle m.now)
      (clean : h.machine.cycle.fault = none)
      (rest : Proceeds m (h.cycled m.now) .presenting calls h' e) :
      Proceeds m h .pacing (.cycle :: calls) h' e
  | refused {h cause} (refusal : m.refusal = some cause) :
      Proceeds m h .presenting [.present h.machine.screen] h (.failed (.io cause))
  | presented {h calls h' e} (accepted : m.refusal = none)
      (rest : Proceeds m h .counting calls h' e) :
      Proceeds m h .presenting (.present h.machine.screen :: calls) h' e
  | tick {h calls h' e} (due : h.pace.timerPeriod ≤ elapsed h.lastTick m.now)
      (rest : Proceeds m
        { h with machine := h.machine.tick, lastTick := h.lastTick + h.pace.timerPeriod }
        .counting calls h' e) :
      Proceeds m h .counting (.tick :: calls) h' e
  | resumed {h} (early : elapsed h.lastTick m.now < h.pace.timerPeriod) :
      Proceeds m h .counting [] h .resumed

/-- An iteration proceeds in one way at most. -/
theorem Proceeds.unique {m : Moment} {h h' h'' : Host ρ} {stage : Stage}
    {calls calls' : List HostCall} {e e' : Ending} (first : Proceeds m h stage calls h' e)
    (second : Proceeds m h stage calls' h'' e') : calls' = calls ∧ h'' = h' ∧ e' = e := by
  induction first generalizing calls' with
  | quit asked =>
    cases second with
    | quit => exact ⟨rfl, rfl, rfl⟩
    | polled stays => rw [asked] at stays; cases stays
  | polled stays _ ih =>
    cases second with
    | quit asked => rw [asked] at stays; cases stays
    | polled _ rest =>
      obtain ⟨rfl, same⟩ := ih rest
      exact ⟨rfl, same⟩
  | early early _ ih =>
    cases second with
    | early _ rest => exact ih rest
    | fault due => exact absurd early (Nat.not_lt.2 due)
    | cycle due => exact absurd early (Nat.not_lt.2 due)
  | fault due failed =>
    cases second with
    | early early => exact absurd early (Nat.not_lt.2 due)
    | fault _ again => exact ⟨rfl, rfl, by rw [failed] at again; cases again; rfl⟩
    | cycle _ clean => rw [failed] at clean; cases clean
  | cycle due clean _ ih =>
    cases second with
    | early early => exact absurd early (Nat.not_lt.2 due)
    | fault _ failed => rw [failed] at clean; cases clean
    | cycle _ _ rest =>
      obtain ⟨rfl, same⟩ := ih rest
      exact ⟨rfl, same⟩
  | refused refusal =>
    cases second with
    | refused again => exact ⟨rfl, rfl, by rw [refusal] at again; cases again; rfl⟩
    | presented accepted => rw [refusal] at accepted; cases accepted
  | presented accepted _ ih =>
    cases second with
    | refused refusal => rw [refusal] at accepted; cases accepted
    | presented _ rest =>
      obtain ⟨rfl, same⟩ := ih rest
      exact ⟨rfl, same⟩
  | tick due _ ih =>
    cases second with
    | tick _ rest =>
      obtain ⟨rfl, same⟩ := ih rest
      exact ⟨rfl, same⟩
    | resumed early => exact absurd early (Nat.not_lt.2 due)
  | resumed early =>
    cases second with
    | tick due => exact absurd early (Nat.not_lt.2 due)
    | resumed => exact ⟨rfl, rfl, rfl⟩

/-- The timer loop proceeds by one count in each turn. -/
theorem Proceeds.of_timerLoop {m : Moment} {h : Host ρ} {turns : Nat}
    (loop : TimerLoop h.pace.timerPeriod m.now h.lastTick turns) :
    h.Proceeds m .counting (List.replicate turns .tick) (h.counted turns) .resumed := by
  induction turns generalizing h with
  | zero =>
    cases loop with
    | done early =>
      rw [counted_zero]
      exact .resumed early
  | succ turns ih =>
    cases loop with
    | turn due later =>
      rw [← counted_succ]
      exact .tick due (ih later)

/-- With a positive period the timer loop comes to its end. -/
theorem proceeds_counting {h : Host ρ} (pos : 0 < h.pace.timerPeriod) (m : Moment) :
    h.Proceeds m .counting (List.replicate (h.ticksOwed m.now) .tick)
      (h.counted (h.ticksOwed m.now)) .resumed :=
  .of_timerLoop ((timerLoop_iff pos).2 rfl)

/-- The calls of an attempt at a cycle: the screen is shown if the cycle succeeds. -/
def attemptCalls (h : Host ρ) : List HostCall :=
  match h.machine.cycle.fault with
  | some _ => [.cycle]
  | none => [.cycle, .present h.machine.cycle.machine.screen]

theorem attemptCalls_of_fault {h : Host ρ} {f : Fault} (fault : h.machine.cycle.fault = some f) :
    h.attemptCalls = [.cycle] := by
  simp only [attemptCalls, fault]

theorem attemptCalls_of_clean {h : Host ρ} (clean : h.machine.cycle.fault = none) :
    h.attemptCalls = [.cycle, .present h.machine.cycle.machine.screen] := by
  simp only [attemptCalls, clean]

/-- The calls of an iteration, in order. -/
def calls (h : Host ρ) (m : Moment) : List HostCall :=
  let i := h.step m
  .poll :: ((if i.attempted then (h.accept m.poll).attemptCalls else []) ++
    List.replicate i.ticks .tick)

/-- With a positive period an iteration comes to the end that is computed at once. -/
theorem proceeds_step {h : Host ρ} (pos : 0 < h.pace.timerPeriod) (m : Moment) :
    h.Proceeds m .polling (h.calls m) (h.step m).host (h.step m).ending := by
  have posPolled : 0 < (h.accept m.poll).pace.timerPeriod := by rwa [pace_accept]
  have posCycled : 0 < ((h.accept m.poll).cycled m.now).pace.timerPeriod := posPolled
  have isDue : h.cycleDue m.now = true →
      (h.accept m.poll).pace.cycleDelay ≤ elapsed (h.accept m.poll).lastCycle m.now := by
    simp [cycleDue]
  rcases h.step_cases m with ⟨quit, i⟩ | ⟨stays, due, f, fault, i⟩ |
    ⟨stays, due, clean, cause, refusal, i⟩ | ⟨stays, due, clean, accepted, i⟩ | ⟨stays, early, i⟩
  · simpa [calls, i] using Proceeds.quit quit
  · have attempt := Proceeds.fault (m := m) (isDue due) fault
    simpa [calls, i, attemptCalls_of_fault fault] using Proceeds.polled stays attempt
  · have shown : ((h.accept m.poll).cycled m.now).Proceeds m .presenting _ _ _ :=
      .refused refusal
    have attempt := Proceeds.cycle (isDue due) clean shown
    simpa [calls, i, attemptCalls_of_clean clean] using Proceeds.polled stays attempt
  · have shown := Proceeds.presented accepted (proceeds_counting posCycled m)
    have attempt := Proceeds.cycle (isDue due) clean shown
    simpa [calls, i, attemptCalls_of_clean clean, countTimers_of_pos posCycled] using
      Proceeds.polled stays attempt
  · have waits : elapsed (h.accept m.poll).lastCycle m.now < (h.accept m.poll).pace.cycleDelay := by
      simpa [cycleDue] using early
    have counts := Proceeds.early waits (proceeds_counting posPolled m)
    simpa [calls, i, countTimers_of_pos posPolled] using Proceeds.polled stays counts

/-- With a positive period an iteration has exactly one course: the calls that are listed, and the
host and the ending that are computed at once. -/
theorem proceeds_iff {h : Host ρ} (pos : 0 < h.pace.timerPeriod) {m : Moment}
    {calls : List HostCall} {h' : Host ρ} {e : Ending} :
    h.Proceeds m .polling calls h' e ↔
      calls = h.calls m ∧ h' = (h.step m).host ∧ e = (h.step m).ending := by
  constructor
  · exact fun course => (proceeds_step pos m).unique course
  · rintro ⟨rfl, rfl, rfl⟩
    exact proceeds_step pos m

/-- An iteration that is asked to quit makes no call but its poll, whatever the period. -/
theorem proceeds_iff_of_quit {h : Host ρ} {m : Moment} (asked : m.poll.quit = true)
    {calls : List HostCall} {h' : Host ρ} {e : Ending} :
    h.Proceeds m .polling calls h' e ↔ calls = [.poll] ∧ h' = h.accept m.poll ∧ e = .quit := by
  constructor
  · exact fun course => (Proceeds.quit asked).unique course
  · rintro ⟨rfl, rfl, rfl⟩
    exact .quit asked

/-! ### Effects of an iteration -/

omit [ByteSource ρ] in
@[simp] theorem pace_countTimers (h : Host ρ) (now : Int) :
    (h.countTimers now).host.pace = h.pace := by
  unfold countTimers
  split <;> rfl

omit [ByteSource ρ] in
@[simp] theorem lastCycle_countTimers (h : Host ρ) (now : Int) :
    (h.countTimers now).host.lastCycle = h.lastCycle := by
  unfold countTimers
  split <;> rfl

omit [ByteSource ρ] in
@[simp] theorem attempted_countTimers (h : Host ρ) (now : Int) :
    (h.countTimers now).attempted = false := by
  unfold countTimers
  split <;> rfl

@[simp] theorem pace_step (h : Host ρ) (m : Moment) : (h.step m).host.pace = h.pace := by
  rcases h.step_cases m with ⟨-, i⟩ | ⟨-, -, f, -, i⟩ | ⟨-, -, -, cause, -, i⟩ | ⟨-, -, -, -, i⟩ |
    ⟨-, -, i⟩ <;> simp [i]

/-- An iteration attempts a cycle exactly if it does not quit and the delay has passed. -/
theorem attempted_step (h : Host ρ) (m : Moment) :
    (h.step m).attempted = (!m.poll.quit && h.cycleDue m.now) := by
  rcases h.step_cases m with ⟨quit, i⟩ | ⟨stays, due, f, -, i⟩ | ⟨stays, due, -, cause, -, i⟩ |
    ⟨stays, due, -, -, i⟩ | ⟨stays, early, i⟩ <;> simp_all

/-- The time of the last attempt is that of this iteration, if it attempts a cycle. -/
theorem lastCycle_step (h : Host ρ) (m : Moment) :
    (h.step m).host.lastCycle = if (h.step m).attempted then m.now else h.lastCycle := by
  rcases h.step_cases m with ⟨-, i⟩ | ⟨-, -, f, -, i⟩ | ⟨-, -, -, cause, -, i⟩ | ⟨-, -, -, -, i⟩ |
    ⟨-, -, i⟩ <;> simp [i]

/-- An iteration that resumes makes all the counts of the timers that are owed, and any other makes
none. -/
theorem ticks_step {h : Host ρ} (pos : 0 < h.pace.timerPeriod) (m : Moment) :
    (h.step m).ticks = if (h.step m).ending = .resumed then h.ticksOwed m.now else 0 := by
  have counts : ∀ k : Host ρ, k.pace = h.pace → k.lastTick = h.lastTick →
      (k.countTimers m.now).ending = .resumed ∧
        (k.countTimers m.now).ticks = h.ticksOwed m.now := by
    intro k pace last
    rw [countTimers_of_pos (by rwa [pace])]
    simp [ticksOwed, pace, last]
  rcases h.step_cases m with ⟨-, i⟩ | ⟨-, -, f, -, i⟩ | ⟨-, -, -, cause, -, i⟩ | ⟨-, -, -, -, i⟩ |
    ⟨-, -, i⟩ <;> simp [i, counts]

/-- Each count moves the time of the last count by a period. -/
theorem lastTick_step {h : Host ρ} (pos : 0 < h.pace.timerPeriod) (m : Moment) :
    (h.step m).host.lastTick = h.lastTick + (h.step m).ticks * h.pace.timerPeriod := by
  have counts : ∀ k : Host ρ, k.pace = h.pace → k.lastTick = h.lastTick →
      (k.countTimers m.now).host.lastTick =
        h.lastTick + (k.countTimers m.now).ticks * h.pace.timerPeriod := by
    intro k pace last
    rw [countTimers_of_pos (by rwa [pace])]
    simp [pace, last]
  rcases h.step_cases m with ⟨-, i⟩ | ⟨-, -, f, -, i⟩ | ⟨-, -, -, cause, -, i⟩ | ⟨-, -, -, -, i⟩ |
    ⟨-, -, i⟩ <;> simp [i, counts]

/-! ### Successions of iterations -/

/-- The host after iterations at the given moments, also those after one that does not resume. -/
def after (h : Host ρ) (moments : List Moment) : Host ρ :=
  moments.foldl (fun h m => (h.step m).host) h

@[simp] theorem after_nil (h : Host ρ) : h.after [] = h := rfl

@[simp] theorem after_cons (h : Host ρ) (m : Moment) (rest : List Moment) :
    h.after (m :: rest) = (h.step m).host.after rest := rfl

theorem after_append (h : Host ρ) (earlier later : List Moment) :
    h.after (earlier ++ later) = (h.after earlier).after later :=
  List.foldl_append

@[simp] theorem pace_after (h : Host ρ) (moments : List Moment) :
    (h.after moments).pace = h.pace := by
  induction moments generalizing h with
  | nil => rfl
  | cons m rest ih => rw [after_cons, ih, pace_step]

/-- An attempt at a cycle makes no count of the timers. -/
theorem tick_notMem_attemptCalls (h : Host ρ) : .tick ∉ h.attemptCalls := by
  unfold attemptCalls
  split <;> simp

/-- The counts of the timers in an iteration stand behind all its other calls. -/
theorem calls_eq_append (h : Host ρ) (m : Moment) :
    ∃ before, .tick ∉ before ∧ h.calls m = before ++ List.replicate (h.step m).ticks .tick := by
  refine ⟨.poll :: if (h.step m).attempted then (h.accept m.poll).attemptCalls else [], ?_, rfl⟩
  split <;> simp [tick_notMem_attemptCalls]

/-- The calls of an iteration contain its counts of the timers. -/
theorem count_tick_calls (h : Host ρ) (m : Moment) :
    (h.calls m).count .tick = (h.step m).ticks := by
  obtain ⟨before, none, calls⟩ := h.calls_eq_append m
  rw [calls, List.count_append, List.count_eq_zero_of_not_mem none, List.count_replicate_self,
    Nat.zero_add]

/-- An attempt at a cycle calls for one cycle. -/
theorem count_cycle_attemptCalls (h : Host ρ) : h.attemptCalls.count .cycle = 1 := by
  unfold attemptCalls
  split <;> simp

/-- An iteration calls for one cycle if it attempts one, and else for none. -/
theorem count_cycle_calls (h : Host ρ) (m : Moment) :
    (h.calls m).count .cycle = (h.step m).attempted.toNat := by
  have ticks : (List.replicate (h.step m).ticks HostCall.tick).count .cycle = 0 :=
    List.count_eq_zero_of_not_mem fun mem => by cases List.eq_of_mem_replicate mem
  cases attempted : (h.step m).attempted <;>
    simp [calls, attempted, ticks, count_cycle_attemptCalls]

end Host

end Chip8
