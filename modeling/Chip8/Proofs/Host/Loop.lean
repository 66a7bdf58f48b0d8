import Chip8.Host.Session
import Chip8.Machine.Action
import Chip8.Proofs.Host.Attempts

/-!
# The loop against a clock

A host that runs on its own repeats its iteration until one does not resume, and sleeps in between
until the next cycle is due.  `Host.Loops` describes this call by call: each `Turn` of the loop
makes the calls of one iteration, looks at the clock again and sleeps.

A script is a list of polls that each write the keypad and do not quit; a request to quit follows
it.  Without a delay between cycles, and before the timers have to be counted for the first time,
the loop does nothing else than a bare machine that is given each keypad in turn and runs one cycle
with it.  `Run.script` is this bare run, up to the first cycle that fails, and `scriptCalls` lists
the calls that the loop makes for it.

The invariant of the loop is `InStep`: the session has the machine of the bare run, and has made as
many polls, and shown as many frames, as that had cycles that succeeded.  A line whose cycle
succeeds keeps it (`InStep.next`), and a cycle that fails or a request to quit ends both
(`EndedWith`).  The main statement is `Host.loop_eq_bare_run`.
-/

namespace Chip8

/-- What one turn of the loop meets: the moment of its iteration, and the time that the clock shows
after it. -/
structure Turn where
  moment : Moment
  after : Int
deriving DecidableEq

/-- What a loop does: it makes a call of an iteration, or it sleeps. -/
inductive LoopCall where
  | call (c : HostCall)
  | sleep (duration : Nat)
deriving DecidableEq

namespace Host

variable {ρ : Type} [ByteSource ρ]

omit [ByteSource ρ] in
/-- How long a host sleeps when its clock shows `now`: until the delay since the last attempt at a
cycle has passed. -/
def rest (h : Host ρ) (now : Int) : Nat :=
  elapsed now (h.lastCycle + h.pace.cycleDelay)

/-- `h.Loops turns calls h' e` says that the loop of a host `h` that meets the given turns does
`calls` until an iteration does not resume, which leaves the host `h'` and the ending `e`. -/
inductive Loops : Host ρ → List Turn → List LoopCall → Host ρ → Ending → Prop
  | ended {h t turns calls h' e} (course : h.Proceeds t.moment .polling calls h' e)
      (ended : e ≠ .resumed) : Loops h (t :: turns) (calls.map .call) h' e
  | resumed {h t turns calls h' calls' h'' e}
      (course : h.Proceeds t.moment .polling calls h' .resumed)
      (later : Loops h' turns calls' h'' e) :
      Loops h (t :: turns) (calls.map .call ++ .sleep (h'.rest t.after) :: calls') h'' e

/-- A loop proceeds in one way at most. -/
theorem Loops.unique {h h' h'' : Host ρ} {turns : List Turn} {calls calls' : List LoopCall}
    {e e' : Ending} (first : h.Loops turns calls h' e) (second : h.Loops turns calls' h'' e') :
    calls' = calls ∧ h'' = h' ∧ e' = e := by
  induction first generalizing calls' with
  | ended course stops =>
    cases second with
    | ended again _ =>
      obtain ⟨rfl, same⟩ := course.unique again
      exact ⟨rfl, same⟩
    | resumed again _ => exact absurd (course.unique again).2.2.symm stops
  | resumed course _ ih =>
    cases second with
    | ended again stops => exact absurd (course.unique again).2.2 stops
    | resumed again later =>
      obtain ⟨rfl, rfl, -⟩ := course.unique again
      obtain ⟨rfl, same⟩ := ih later
      exact ⟨rfl, same⟩

end Host

/-! ### Scripts -/

/-- A line of a script: the keypad that a poll writes, and what the clock shows at the beginning of
its iteration and after it. -/
structure Line where
  keys : Keypad
  now : Int
  after : Int
deriving DecidableEq

/-- The turn in which a line of a script is played, with a display that accepts every frame. -/
def Line.turn (l : Line) : Turn where
  moment := { now := l.now, poll := { keypad := some l.keys } }
  after := l.after

namespace Machine

variable {ρ : Type} [ByteSource ρ]

omit [ByteSource ρ] in
/-- The machine with the given keys pressed. -/
def holding (m : Machine ρ) (keys : Keypad) : Machine ρ :=
  { m with keypad := keys }

/-- One cycle with the given keys pressed. -/
def Run.nextHolding (r : Run ρ) (keys : Keypad) : Run ρ :=
  Run.next { r with machine := r.machine.holding keys }

/-- One cycle for each keypad of a list, with these keys pressed, none after a fault. -/
def Run.script (r : Run ρ) : List Keypad → Run ρ
  | [] => r
  | keys :: rest => if r.fault.isSome then r else (r.nextHolding keys).script rest

/-- What a loop does that plays a script on a machine and is then asked to quit. -/
def scriptCalls (m : Machine ρ) : List Line → List LoopCall
  | [] => [.call .poll]
  | l :: rest =>
    let outcome := (m.holding l.keys).cycle
    match outcome.fault with
    | some _ => [.call .poll, .call .cycle]
    | none =>
      [.call .poll, .call .cycle, .call (.present outcome.machine.screen),
        .sleep (elapsed l.after l.now)] ++ outcome.machine.scriptCalls rest

@[simp] theorem Run.script_nil (r : Run ρ) : r.script [] = r := rfl

/-- A run that was stopped by a fault stays as it is. -/
theorem Run.script_of_fault {r : Run ρ} {f : Fault} (stopped : r.fault = some f)
    (keypads : List Keypad) : r.script keypads = r := by
  cases keypads with
  | nil => rfl
  | cons keys rest => simp [Run.script, stopped]

/-- A run without a fault goes on with the first keypad. -/
theorem Run.script_cons {r : Run ρ} (clean : r.fault = none) (keys : Keypad)
    (rest : List Keypad) : r.script (keys :: rest) = (r.nextHolding keys).script rest := by
  simp [Run.script, clean]

@[simp] theorem Run.machine_nextHolding (r : Run ρ) (keys : Keypad) :
    (r.nextHolding keys).machine = (r.machine.holding keys).cycle.machine := rfl

theorem Run.succeeded_nextHolding_of_fault {r : Run ρ} {keys : Keypad} {f : Fault}
    (failed : (r.machine.holding keys).cycle.fault = some f) :
    (r.nextHolding keys).succeeded = r.succeeded := by
  simp only [nextHolding, next, failed, Option.isNone_some, Bool.false_eq_true, if_false]

theorem Run.succeeded_nextHolding_of_clean {r : Run ρ} {keys : Keypad}
    (clean : (r.machine.holding keys).cycle.fault = none) :
    (r.nextHolding keys).succeeded = r.succeeded + 1 := by
  simp only [nextHolding, next, clean, Option.isNone_none, if_true]

/-- A run without a fault that goes through a whole list of keypads had a cycle that succeeded for
each of them, and a run that stops had fewer. -/
theorem Run.succeeded_script {r : Run ρ} (clean : r.fault = none) (keypads : List Keypad) :
    ((r.script keypads).fault = none →
      (r.script keypads).succeeded = r.succeeded + keypads.length) ∧
    ((r.script keypads).fault ≠ none →
      (r.script keypads).succeeded < r.succeeded + keypads.length) := by
  induction keypads generalizing r with
  | nil => exact ⟨fun _ => rfl, fun stopped => absurd clean stopped⟩
  | cons keys rest ih =>
    rw [Run.script_cons clean, List.length_cons]
    cases failed : (r.machine.holding keys).cycle.fault with
    | some f =>
      have stopped : (r.nextHolding keys).fault = some f := failed
      rw [Run.script_of_fault stopped, Run.succeeded_nextHolding_of_fault failed, stopped]
      exact ⟨nofun, fun _ => by omega⟩
    | none =>
      have goesOn : (r.nextHolding keys).fault = none := failed
      obtain ⟨all, fewer⟩ := ih goesOn
      rw [Run.succeeded_nextHolding_of_clean failed] at all fewer
      refine ⟨fun complete => ?_, fun stopped => ?_⟩
      · rw [all complete]
        omega
      · have before := fewer stopped
        omega

/-- A run without a fault leads where the writes of the keypads and the cycles lead that it
attempts: one for each that succeeds, and one more if that fails. -/
theorem Run.machine_script {r : Run ρ} (clean : r.fault = none) (keypads : List Keypad) :
    r.succeeded ≤ (r.script keypads).succeeded ∧
    (r.script keypads).machine =
      r.machine.after ((keypads.take ((r.script keypads).succeeded + 1 - r.succeeded)).flatMap
        fun keys => [.setKeypad keys, .cycle]) := by
  induction keypads generalizing r with
  | nil => simp
  | cons keys rest ih =>
    rw [Run.script_cons clean]
    cases failed : (r.machine.holding keys).cycle.fault with
    | some f =>
      have stopped : (r.nextHolding keys).fault = some f := failed
      rw [Run.script_of_fault stopped, Run.succeeded_nextHolding_of_fault failed,
        Nat.add_sub_cancel_left]
      exact ⟨Nat.le_refl _, rfl⟩
    | none =>
      have goesOn : (r.nextHolding keys).fault = none := failed
      obtain ⟨le, after⟩ := ih goesOn
      rw [Run.succeeded_nextHolding_of_clean failed] at le after
      refine ⟨by omega, ?_⟩
      rw [after, show ((r.nextHolding keys).script rest).succeeded + 1 - r.succeeded =
          ((r.nextHolding keys).script rest).succeeded + 1 - (r.succeeded + 1) + 1 by omega]
      rfl

end Machine

/-! ### One line -/

namespace Host

variable {ρ : Type} [ByteSource ρ] {h : Host ρ} {l : Line}

/-- The host after a line whose cycle is attempted. -/
def played (h : Host ρ) (l : Line) : Host ρ :=
  { h with machine := (h.machine.holding l.keys).cycle.machine, lastCycle := l.now }

/-- A host that has played a line without a delay sleeps only if its clock went back. -/
theorem rest_played (zero : h.pace.cycleDelay = 0) (after : Int) :
    (h.played l).rest after = elapsed after l.now := by
  have noDelay : (h.played l).pace.cycleDelay = 0 := zero
  rw [rest, noDelay, Int.natCast_zero, Int.add_zero]
  rfl

omit [ByteSource ρ] in
/-- A poll does nothing but press keys. -/
theorem exists_machine_accept (h : Host ρ) (p : Poll) :
    ∃ keys, (h.accept p).machine = h.machine.holding keys := by
  unfold accept
  split
  · next keys _ => exact ⟨keys, rfl⟩
  · exact ⟨h.machine.keypad, rfl⟩

/-- A line whose cycle fails ends with the fault. -/
theorem step_line_of_fault (zero : h.pace.cycleDelay = 0) {f : Fault}
    (failed : (h.machine.holding l.keys).cycle.fault = some f) :
    h.step l.turn.moment =
      { host := h.played l, ending := .failed (.fault f), attempted := true } := by
  rw [step_of_due rfl (cycleDue_of_eq_zero zero _)]
  exact attemptCycle_of_fault (h := h.accept l.turn.moment.poll) failed l.turn.moment

/-- A line whose cycle succeeds shows the screen and makes no count of the timers, as long as no
period has elapsed. -/
theorem step_line_of_clean (zero : h.pace.cycleDelay = 0)
    (early : elapsed h.lastTick l.now < h.pace.timerPeriod)
    (clean : (h.machine.holding l.keys).cycle.fault = none) :
    h.step l.turn.moment =
      { host := h.played l, ending := .resumed, attempted := true,
        presented := some (h.machine.holding l.keys).cycle.machine.screen } := by
  have counted : ((h.accept l.turn.moment.poll).cycled l.turn.moment.now).countTimers
      l.turn.moment.now = { host := h.played l, ending := .resumed } := countTimers_of_early early
  rw [step_of_due rfl (cycleDue_of_eq_zero zero _),
    attemptCycle_of_accepted (h := h.accept l.turn.moment.poll) clean rfl, counted]
  rfl

omit [ByteSource ρ] in
/-- Without a delay any time is enough for a cycle. -/
theorem cycleDelay_le_of_eq_zero (zero : h.pace.cycleDelay = 0) (time : Nat) :
    h.pace.cycleDelay ≤ time := by
  rw [zero]
  exact Nat.zero_le time

theorem proceeds_line_of_fault (zero : h.pace.cycleDelay = 0) {f : Fault}
    (failed : (h.machine.holding l.keys).cycle.fault = some f) :
    h.Proceeds l.turn.moment .polling [.poll, .cycle] (h.played l) (.failed (.fault f)) := by
  have due := cycleDelay_le_of_eq_zero zero (elapsed h.lastCycle l.now)
  exact .polled rfl (.fault (h := h.accept l.turn.moment.poll) due failed)

theorem proceeds_line_of_clean (zero : h.pace.cycleDelay = 0)
    (early : elapsed h.lastTick l.now < h.pace.timerPeriod)
    (clean : (h.machine.holding l.keys).cycle.fault = none) :
    h.Proceeds l.turn.moment .polling
      [.poll, .cycle, .present (h.machine.holding l.keys).cycle.machine.screen] (h.played l)
      .resumed := by
  have counted : (h.played l).Proceeds l.turn.moment .counting [] (h.played l) .resumed :=
    .resumed early
  have due := cycleDelay_le_of_eq_zero zero (elapsed h.lastCycle l.now)
  exact .polled rfl (.cycle (h := h.accept l.turn.moment.poll) due clean (.presented rfl counted))

end Host

/-! ### Whole scripts -/

namespace Session

variable {ρ : Type} [ByteSource ρ]

/-- Play a script, and then meet the turn in which the host is asked to quit. -/
def play (s : Session ρ) (script : List Line) (last : Turn) : Session ρ :=
  s.follow (script.map (·.turn.moment) ++ [last.moment])

/-- A session that goes on plays the first line of a script, and then the others. -/
theorem play_cons {s : Session ρ} (going : s.ending = .resumed) (l : Line) (rest : List Line)
    (last : Turn) : s.play (l :: rest) last = (s.next l.turn.moment).play rest last := by
  rw [play, List.map_cons, List.cons_append, follow_cons_of_resumed going]
  rfl

/-- A session is in step with a bare run if both go on, they have the same machine, and the session
has polled and shown a frame for each cycle of the run that succeeded. -/
structure InStep (s : Session ρ) (r : Machine.Run ρ) : Prop where
  going : s.ending = .resumed
  clean : r.fault = none
  machine : s.host.machine = r.machine
  polls : s.polls = r.succeeded
  frames : s.recorder.count = r.succeeded

/-- A session has ended with a bare run if it failed with the fault of the run, or without one quit,
in its poll after those for the cycles that succeeded, and what it leaves differs from the run in no
more than the keypad. -/
structure EndedWith (s : Session ρ) (r : Machine.Run ρ) : Prop where
  ending : s.ending = r.fault.elim .quit fun f => .failed (.fault f)
  polls : s.polls = r.succeeded + 1
  frames : s.recorder.count = r.succeeded
  machine : ∃ keys, s.host.machine = r.machine.holding keys

section Turns

variable {s : Session ρ} {r : Machine.Run ρ} {l : Line}

/-- A line whose cycle succeeds keeps a session in step. -/
theorem InStep.next (inStep : InStep s r) (zero : s.host.pace.cycleDelay = 0)
    (early : elapsed s.host.lastTick l.now < s.host.pace.timerPeriod)
    (clean : (r.machine.holding l.keys).cycle.fault = none) :
    InStep (s.next l.turn.moment) (r.nextHolding l.keys) := by
  have same : s.host.machine = r.machine := inStep.machine
  have step := Host.step_line_of_clean zero early (same ▸ clean)
  have succeeded := Machine.Run.succeeded_nextHolding_of_clean clean
  refine ⟨by rw [ending_next, step], clean, ?_, ?_, ?_⟩
  · rw [host_next, step, Machine.Run.machine_nextHolding, ← same]
    rfl
  · rw [polls_next, inStep.polls, succeeded]
  · rw [recorder_next_eq_note, step, Recorder.note, succeeded, inStep.frames]

/-- A line whose cycle fails ends a session in step. -/
theorem InStep.endedWith_of_fault (inStep : InStep s r) (zero : s.host.pace.cycleDelay = 0)
    {f : Fault} (failed : (r.machine.holding l.keys).cycle.fault = some f) :
    EndedWith (s.next l.turn.moment) (r.nextHolding l.keys) := by
  have same : s.host.machine = r.machine := inStep.machine
  have step := Host.step_line_of_fault zero (same ▸ failed)
  have stopped : (r.nextHolding l.keys).fault = some f := failed
  have succeeded := Machine.Run.succeeded_nextHolding_of_fault failed
  refine ⟨by rw [ending_next, step, stopped]; rfl, ?_, ?_, (s.host.played l).machine.keypad, ?_⟩
  · rw [polls_next, inStep.polls, succeeded]
  · rw [recorder_next_eq_note, step, Recorder.note, succeeded, inStep.frames]
  · rw [host_next, step, Machine.Run.machine_nextHolding, ← same]
    rfl

/-- A request to quit ends a session in step. -/
theorem InStep.endedWith_of_quit (inStep : InStep s r) {m : Moment} (asked : m.poll.quit = true) :
    EndedWith (s.next m) r := by
  have step := s.host.step_of_quit asked
  obtain ⟨keys, accepted⟩ := s.host.exists_machine_accept m.poll
  refine ⟨by rw [ending_next, step, inStep.clean]; rfl, ?_, ?_, keys, ?_⟩
  · rw [polls_next, inStep.polls]
  · rw [recorder_next_eq_note, step, Recorder.note, inStep.frames]
  · rw [host_next, step, accepted, inStep.machine]

end Turns

/-- From a session in step with a bare run, the loop plays a script as the run goes through its
keypads, and ends with it. -/
theorem InStep.play {s : Session ρ} {r : Machine.Run ρ} (inStep : InStep s r)
    (zero : s.host.pace.cycleDelay = 0) {script : List Line}
    (early : ∀ l ∈ script, elapsed s.host.lastTick l.now < s.host.pace.timerPeriod) {last : Turn}
    (asked : last.moment.poll.quit = true) :
    s.host.Loops (script.map Line.turn ++ [last]) (r.machine.scriptCalls script)
      (s.play script last).host (s.play script last).ending ∧
    EndedWith (s.play script last) (r.script (script.map Line.keys)) := by
  induction script generalizing s r with
  | nil =>
    have only : s.play [] last = s.next last.moment := follow_cons_of_resumed inStep.going _ _
    have quit : (s.next last.moment).host = s.host.accept last.moment.poll ∧
        (s.next last.moment).ending = .quit := by
      rw [host_next, ending_next, s.host.step_of_quit asked]
      exact ⟨rfl, rfl⟩
    rw [only, quit.1, quit.2]
    exact ⟨.ended (.quit asked) nofun, inStep.endedWith_of_quit asked⟩
  | cons l rest ih =>
    have same : s.host.machine = r.machine := inStep.machine
    rw [List.map_cons, List.map_cons, List.cons_append, play_cons inStep.going,
      Machine.Run.script_cons inStep.clean, Machine.scriptCalls]
    cases failed : (r.machine.holding l.keys).cycle.fault with
    | some f =>
      have failedToo : (s.host.machine.holding l.keys).cycle.fault = some f := same ▸ failed
      have step := Host.step_line_of_fault zero failedToo
      have stays : (s.next l.turn.moment).play rest last = s.next l.turn.moment :=
        follow_of_ne_resumed (by rw [ending_next, step]; nofun) _
      have first := Host.proceeds_line_of_fault zero failedToo
      rw [stays, Machine.Run.script_of_fault (r := r.nextHolding l.keys) failed, host_next,
        ending_next, step]
      exact ⟨.ended first nofun, inStep.endedWith_of_fault zero failed⟩
    | none =>
      have inTime := early l List.mem_cons_self
      have cleanToo : (s.host.machine.holding l.keys).cycle.fault = none := same ▸ failed
      have played : (s.next l.turn.moment).host = s.host.played l := by
        rw [host_next, Host.step_line_of_clean zero inTime cleanToo]
      have later := ih (inStep.next zero inTime failed) (by rw [played]; exact zero) (by
        rw [played]
        exact fun k mem => early k (List.mem_cons_of_mem l mem))
      obtain ⟨loops, ended⟩ := later
      rw [played] at loops
      have first := Host.proceeds_line_of_clean zero inTime cleanToo
      have whole := Host.Loops.resumed (t := l.turn) first loops
      rw [Host.rest_played zero, same] at whole
      exact ⟨whole, ended⟩

end Session

namespace Host

variable {ρ : Type} [ByteSource ρ]

/-- Without a delay between cycles, the loop plays a script as a bare machine goes through its
keypads.  While no period of the timers has elapsed, and the display accepts every frame, the loop
has one course: it polls, runs a cycle with the keypad of the line, shows the screen and sleeps only
if its clock went back, line by line.  A cycle that fails ends it with its fault, and otherwise it
ends at the request to quit.  It has polled once more, and shown as many frames, as cycles
succeeded; these are all lines exactly if no cycle failed.  What it leaves differs from the bare run
in no more than the keypad, and the bare run has done the lines that were polled. -/
theorem loop_eq_bare_run {pace : Pace} (zero : pace.cycleDelay = 0) (machine : Machine ρ)
    (start : Int) {script : List Line}
    (early : ∀ l ∈ script, elapsed start l.now < pace.timerPeriod) {last : Turn}
    (asked : last.moment.poll.quit = true) :
    let first := startingAt machine pace start
    let s := Session.play { host := first } script last
    let keypads := script.map Line.keys
    let bare := Machine.Run.script { machine := machine } keypads
    (∀ calls h' e, first.Loops (script.map Line.turn ++ [last]) calls h' e ↔
      calls = machine.scriptCalls script ∧ h' = s.host ∧ e = s.ending) ∧
    s.ending = (bare.fault.elim .quit fun f => .failed (.fault f)) ∧
    s.polls = bare.succeeded + 1 ∧
    s.recorder.count = bare.succeeded ∧
    (bare.fault = none → bare.succeeded = script.length) ∧
    (bare.fault ≠ none → bare.succeeded < script.length) ∧
    s.host.machine = bare.machine.holding s.host.machine.keypad ∧
    bare.machine =
      machine.after ((keypads.take s.polls).flatMap fun keys => [.setKeypad keys, .cycle]) := by
  intro first s keypads bare
  have inStep : Session.InStep { host := first } { machine := machine } := ⟨rfl, rfl, rfl, rfl, rfl⟩
  obtain ⟨loops, ended⟩ := inStep.play zero early asked
  obtain ⟨keys, left⟩ := ended.machine
  obtain ⟨all, fewer⟩ := Machine.Run.succeeded_script (r := { machine := machine }) rfl keypads
  obtain ⟨-, after⟩ := Machine.Run.machine_script (r := { machine := machine }) rfl keypads
  refine ⟨fun calls h' e => ⟨fun course => loops.unique course, ?_⟩, ended.ending, ended.polls,
    ended.frames, fun complete => ?_, fun stopped => ?_, ?_, ?_⟩
  · rintro ⟨rfl, rfl, rfl⟩
    exact loops
  · rw [all complete, List.length_map, Nat.zero_add]
  · have before := fewer stopped
    rwa [List.length_map, Nat.zero_add] at before
  · rw [left]
    rfl
  · rw [ended.polls]
    exact after

/-- A machine that waits for a key gets it in the second line; the return without a call fails in
the third, and the fourth is never polled.  With the first two lines alone the loop ends at the
request to quit. -/
theorem loop_eq_bare_run_of_failing_return :
    let pace : Pace := { cycleDelay := 0 }
    let machine := Machine.fresh [0xF0, 0x0A, 0x00, 0xEE] (CyclicSource.ofPattern [7])
    let silent : Line := { keys := .released, now := 100, after := 101 }
    let pressed : Line := { keys := Keypad.released.set 5 true, now := 103, after := 99 }
    let last : Turn := { moment := { now := 110, poll := { quit := true } }, after := 111 }
    let whole := Session.play { host := startingAt machine pace 100 }
      [silent, pressed, silent, pressed] last
    let short := Session.play { host := startingAt machine pace 100 } [silent, pressed] last
    pace.cycleDelay = 0 ∧
    (∀ l ∈ [silent, pressed, silent, pressed], elapsed 100 l.now < pace.timerPeriod) ∧
    last.moment.poll.quit = true ∧
    whole.ending = .failed (.fault (.stackUnderflow 0x202)) ∧ whole.polls = 3 ∧
    whole.recorder.count = 2 ∧
    short.ending = .quit ∧ short.polls = 3 ∧ short.recorder.count = 2 ∧
    short.host.machine.registers.get 0 = 5 := by
  intro pace machine silent pressed last whole short
  have early : ∀ l ∈ [silent, pressed, silent, pressed], elapsed 100 l.now < pace.timerPeriod := by
    decide
  have earlyShort : ∀ l ∈ [silent, pressed], elapsed 100 l.now < pace.timerPeriod := by decide
  have asked : last.moment.poll.quit = true := rfl
  obtain ⟨-, ending, polls, frames, -⟩ := loop_eq_bare_run rfl machine 100 early asked
  obtain ⟨-, endingShort, pollsShort, framesShort, -, -, left, -⟩ :=
    loop_eq_bare_run rfl machine 100 earlyShort asked
  -- The bare runs are evaluated, and the theorem says what the loop makes of them.
  obtain ⟨stopped, two⟩ :
      let bare := Machine.Run.script { machine := machine }
        ([silent, pressed, silent, pressed].map Line.keys)
      bare.fault = some (.stackUnderflow 0x202) ∧ bare.succeeded = 2 := by decide +kernel
  obtain ⟨clean, twoShort, five⟩ :
      let bare := Machine.Run.script { machine := machine } ([silent, pressed].map Line.keys)
      bare.fault = none ∧ bare.succeeded = 2 ∧ bare.machine.registers.get 0 = 5 := by
    decide +kernel
  rw [stopped] at ending
  rw [two] at polls frames
  rw [clean] at endingShort
  rw [twoShort] at pollsShort framesShort
  refine ⟨rfl, early, asked, ending, polls, frames, endingShort, pollsShort, framesShort, ?_⟩
  rw [left]
  exact five

end Host

end Chip8
