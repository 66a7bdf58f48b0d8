import Chip8.Host.Session
import Chip8.Terminal.HeldKeys
import Chip8.Terminal.Layout
import Chip8.Terminal.Painter
import Chip8.Terminal.TypedBytes
/-!
# Playing on a terminal

A `Console` is a host whose input device is a keyboard and whose display is a painted terminal. In
each iteration it drains the events that have arrived: characters that play a key press it, and
the escape key asks to quit, which leaves the events behind it waiting. Then the host loop takes
its step with the keys that are held, and the painter shows the screen that it presented.
-/

namespace Chip8

/-- An event of the terminal and the time at which it is read. -/
structure Arrival where
  event : TerminalEvent
  time : Int
deriving DecidableEq

/-- What is left after the waiting events have been drained. -/
structure Drained where
  keys : HeldKeys
  waiting : List Arrival
  quit : Bool
deriving DecidableEq

/-- The character of an event, if it is a pressed character. -/
def TerminalEvent.char? : TerminalEvent → Option Char
  | .press { code := .char c, .. } => some c
  | _ => none

/-- Whether an event is the escape key. -/
def TerminalEvent.isEscape : TerminalEvent → Bool
  | .press { code := .escape, .. } => true
  | _ => false

/-- Press the key that an event plays, if it plays one. -/
def HeldKeys.note (h : HeldKeys) (a : Arrival) : HeldKeys :=
  match a.event.char?.bind Keypad.keyFor with
  | some k => h.press k a.time
  | none => h

/-- Read the waiting events up to the first escape key. -/
def HeldKeys.drain (h : HeldKeys) : List Arrival → Drained
  | [] => { keys := h, waiting := [], quit := false }
  | a :: rest =>
    if a.event.isEscape then { keys := h, waiting := rest, quit := true }
    else (h.note a).drain rest

@[simp] theorem HeldKeys.drain_nil (h : HeldKeys) :
    h.drain [] = { keys := h, waiting := [], quit := false } := rfl

/-- The escape key ends the draining. -/
theorem HeldKeys.drain_of_isEscape (h : HeldKeys) {a : Arrival} (rest : List Arrival)
    (escape : a.event.isEscape = true) :
    h.drain (a :: rest) = { keys := h, waiting := rest, quit := true } := by
  simp [drain, escape]

/-- Any other event is noted, and the draining goes on. -/
theorem HeldKeys.drain_of_not_isEscape (h : HeldKeys) {a : Arrival} (rest : List Arrival)
    (other : a.event.isEscape = false) : h.drain (a :: rest) = (h.note a).drain rest := by
  simp [drain, other]

/-- A machine that is played on a terminal. -/
structure Console (ρ : Type) where
  host : Host ρ
  keys : HeldKeys
  waiting : List Arrival := []
  painter : Painter := .start
  ending : Ending := .resumed

/-- The text that has been sent to a terminal so far, and the console that sent it. -/
structure Transcript (ρ : Type) where
  console : Console ρ
  sent : String := ""

namespace Console

variable {ρ : Type}

/-- Draining the waiting events is the poll of a console at time `now`. -/
def poll (c : Console ρ) (now : Int) : Console ρ × Poll :=
  let drained := c.keys.drain c.waiting
  ({ c with keys := drained.keys, waiting := drained.waiting },
    { keypad := some (drained.keys.snapshot now), quit := drained.quit })

variable [ByteSource ρ]

/-- One iteration, and the commands that it sends. -/
def step (c : Console ρ) (now : Int) : Console ρ × List TerminalCommand :=
  let polled := c.poll now
  let iteration := polled.1.host.step { now := now, poll := polled.2 }
  let next := { polled.1 with host := iteration.host, ending := iteration.ending }
  match iteration.presented with
  | some screen =>
    let painted := next.painter.update screen
    ({ next with painter := painted.1 }, painted.2)
  | none => (next, [])

/-- At most `count` iterations, up to the first that does not resume. The iteration with number
`k` is made at time `k * delay`. -/
def playFrom (delay : Nat) (k : Nat) (t : Transcript ρ) : Nat → Transcript ρ
  | 0 => t
  | count + 1 =>
    if t.console.ending = .resumed then
      let stepped := t.console.step (k * delay : Nat)
      playFrom delay (k + 1)
        { console := stepped.1, sent := stepped.2.foldl (fun s c => s ++ c.text) t.sent } count
    else t

/-- Set the terminal up, make at most `count` iterations, and leave the terminal as it was. -/
def play (c : Console ρ) (delay count : Nat) : Transcript ρ :=
  let played :=
    playFrom delay 0 { console := c, sent := TerminalCommand.stream Painter.opening } count
  { played with sent := played.sent ++ TerminalCommand.stream Painter.closing }

end Console

end Chip8
