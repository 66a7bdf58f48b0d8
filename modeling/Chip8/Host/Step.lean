import Chip8.Host.Pace
import Chip8.Machine.Cycle
/-!
# The host loop

A host owns a machine and remembers when it last attempted a cycle and when it last counted the
timers. In one iteration of its loop it meets a `Moment`: the time, what the input device does,
and whether the display refuses a frame. `Host.step` then polls the device, runs a cycle and
presents the screen if the delay between cycles has passed, and counts the timers down. A request
to quit, a failed cycle and a refused frame each end the iteration at once, before the timers are
counted; the missing counts are made up in a later iteration.
-/

namespace Chip8

/-- What an input device does when it is polled: the keypad it writes, if it writes one, and
whether it asks to quit. -/
structure Poll where
  keypad : Option Keypad := none
  quit : Bool := false
deriving DecidableEq

/-- The poll of a device without keys: it releases all of them. -/
def Poll.idle : Poll where
  keypad := some .released

/-- What a host meets in one iteration of its loop. -/
structure Moment where
  now : Int
  poll : Poll := .idle
  /-- The reason for which the display refuses a frame. -/
  refusal : Option IoFailure := none
deriving DecidableEq

/-- A machine in the hands of a host that paces it. -/
structure Host (ρ : Type) where
  pace : Pace
  machine : Machine ρ
  /-- The time of the last attempt at a cycle. -/
  lastCycle : Int
  /-- The time up to which the timers have been counted. -/
  lastTick : Int
deriving DecidableEq

/-- How an iteration ends. -/
inductive Ending where
  /-- The loop goes on. -/
  | resumed
  /-- The input device asked to quit. -/
  | quit
  | failed (failure : Failure)
  /-- The timers are counted down for ever, because their period is zero. -/
  | endless
deriving DecidableEq

/-- What one iteration leaves behind. -/
structure Iteration (ρ : Type) where
  host : Host ρ
  ending : Ending
  /-- Whether a cycle was attempted. -/
  attempted : Bool := false
  /-- The screen that the display accepted. -/
  presented : Option Screen := none
  /-- How often the timers were counted down. -/
  ticks : Nat := 0

namespace Host

variable {ρ : Type}

/-- A host whose clock shows `start`. -/
def startingAt (machine : Machine ρ) (pace : Pace) (start : Int) : Host ρ where
  pace := pace
  machine := machine
  lastCycle := start
  lastTick := start

/-- Write the keypad that a poll asks for. -/
def accept (h : Host ρ) (p : Poll) : Host ρ :=
  match p.keypad with
  | some keys => { h with machine := { h.machine with keypad := keys } }
  | none => h

/-- Whether the delay since the last attempt at a cycle has passed. -/
def cycleDue (h : Host ρ) (now : Int) : Bool :=
  h.pace.cycleDelay ≤ elapsed h.lastCycle now

/-- Count the timers down once for every period that has passed, and go on. -/
def countTimers (h : Host ρ) (now : Int) : Iteration ρ :=
  match ticksDue h.pace.timerPeriod h.lastTick now with
  | some count =>
    { host :=
        { h with
          machine := h.machine.ticks count
          lastTick := h.lastTick + count * h.pace.timerPeriod }
      ending := .resumed
      ticks := count }
  | none => { host := h, ending := .endless }

variable [ByteSource ρ]

/-- Attempt a cycle, and present the screen if it succeeds. -/
def attemptCycle (h : Host ρ) (m : Moment) : Iteration ρ :=
  let outcome := h.machine.cycle
  let cycled := { h with machine := outcome.machine, lastCycle := m.now }
  match outcome.fault, m.refusal with
  | some fault, _ => { host := cycled, ending := .failed (.fault fault), attempted := true }
  | none, some cause => { host := cycled, ending := .failed (.io cause), attempted := true }
  | none, none =>
    { cycled.countTimers m.now with attempted := true, presented := some outcome.machine.screen }

/-- One iteration of the loop. -/
def step (h : Host ρ) (m : Moment) : Iteration ρ :=
  let polled := h.accept m.poll
  if m.poll.quit then { host := polled, ending := .quit }
  else if polled.cycleDue m.now then polled.attemptCycle m
  else polled.countTimers m.now

/-- The iterations at the given moments, also those after one that does not resume. -/
def iterations (h : Host ρ) : List Moment → List (Iteration ρ)
  | [] => []
  | m :: rest => h.step m :: (h.step m).host.iterations rest

@[simp] theorem iterations_cons (h : Host ρ) (m : Moment) (rest : List Moment) :
    h.iterations (m :: rest) = h.step m :: (h.step m).host.iterations rest := rfl

/-- A request to quit ends the iteration before anything but the keypad has changed. -/
theorem step_of_quit (h : Host ρ) {m : Moment} (quit : m.poll.quit = true) :
    h.step m = { host := h.accept m.poll, ending := .quit } := by
  simp [step, quit]

end Host

end Chip8
