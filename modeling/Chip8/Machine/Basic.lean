import Chip8.CallStack
import Chip8.Keypad
import Chip8.LogRecord
import Chip8.RegisterFile
import Chip8.Screen.Basic
/-!
# The machine

`Machine` is the whole state of a machine, together with the source of its random bytes. `boot`
loads a program into a machine that is otherwise new: it fails exactly if the program has more
than `Memory.capacity` bytes.

Between cycles the host acts on the machine. It counts the timers down with `tick`, writes them
and the keypad, and asks with `soundActive` whether to sound the buzzer. `ticks` counts the timers
down several times at once (`ticks_zero`, `ticks_succ`).
-/

namespace Chip8

/-- The state of a machine whose random bytes come from a source of type `ρ`. -/
@[ext]
structure Machine (ρ : Type) where
  memory : Memory
  registers : RegisterFile
  /-- The address at which sprites and blocks begin. -/
  index : UInt16
  /-- The address of the next instruction. -/
  pc : UInt16
  stack : CallStack
  /-- The delay timer. -/
  delay : UInt8
  /-- The sound timer. -/
  sound : UInt8
  keypad : Keypad
  screen : Screen
  random : ρ
deriving DecidableEq

/-- The value of a timer that is counted down `count` times, stopping at zero. -/
def countDown (timer : UInt8) (count : Nat) : UInt8 :=
  UInt8.ofNat (timer.toNat - count)

theorem toNat_countDown (timer : UInt8) (count : Nat) :
    (countDown timer count).toNat = timer.toNat - count := by
  have := timer.toNat_lt
  simp only [countDown, UInt8.toNat_ofNat']
  omega

@[simp] theorem countDown_zero (timer : UInt8) : countDown timer 0 = timer := by
  simp [countDown]

/-- Counting down in two portions is counting down once. -/
theorem countDown_add (timer : UInt8) (m n : Nat) :
    countDown timer (m + n) = countDown (countDown timer m) n := by
  apply UInt8.toNat_inj.1
  simp only [toNat_countDown]
  omega

namespace Machine

variable {ρ : Type}

/-- A machine that is about to run `program`, whose size is not looked at. -/
def fresh (program : List UInt8) (random : ρ) : Machine ρ where
  memory := Memory.image program
  registers := .zero
  index := 0
  pc := UInt16.ofNat Memory.programStart
  stack := .empty
  delay := 0
  sound := 0
  keypad := .released
  screen := .blank
  random := random

/-- Load a program, unless it is too large. -/
def boot (program : List UInt8) (random : ρ) : Except Failure (Machine ρ) :=
  if program.length ≤ Memory.capacity then .ok (fresh program random)
  else .error (.programTooLarge program.length)

/-- What is reported while a program is loaded. -/
def bootLog (program : List UInt8) : List LogRecord :=
  if program.length ≤ Memory.capacity then [.loaded program.length] else []

/-- Load a program from a file whose bytes could, or could not, be read. -/
def bootFile (contents : Except IoFailure (List UInt8)) (random : ρ) :
    Except Failure (Machine ρ) :=
  match contents with
  | .ok program => boot program random
  | .error cause => .error (.io cause)

/-- What is reported while a program is loaded from a file. -/
def bootFileLog (contents : Except IoFailure (List UInt8)) : List LogRecord :=
  match contents with
  | .ok program => bootLog program
  | .error _ => []

/-- Count both timers down `count` times. -/
def ticks (m : Machine ρ) (count : Nat) : Machine ρ :=
  { m with delay := countDown m.delay count, sound := countDown m.sound count }

/-- Count both timers down once. -/
def tick (m : Machine ρ) : Machine ρ :=
  m.ticks 1

/-- Whether the buzzer should sound. -/
def soundActive (m : Machine ρ) : Bool :=
  0 < m.sound

@[simp] theorem ticks_zero (m : Machine ρ) : m.ticks 0 = m := by
  simp [ticks]

/-- Ticks in two portions are ticks at once. -/
theorem ticks_add (m : Machine ρ) (j k : Nat) : m.ticks (j + k) = (m.ticks j).ticks k := by
  simp [ticks, countDown_add]

/-- One more tick may be made last. -/
theorem ticks_succ (m : Machine ρ) (count : Nat) : m.ticks (count + 1) = (m.ticks count).tick :=
  m.ticks_add count 1

/-- A machine is loaded exactly if the program fits. -/
theorem boot_eq_ok_iff {program : List UInt8} {random : ρ} {m : Machine ρ} :
    boot program random = .ok m ↔ program.length ≤ 3584 ∧ m = fresh program random := by
  by_cases h : program.length ≤ 3584 <;>
    simp [boot, Memory.capacity, Memory.programStart, h, eq_comm]

end Machine

end Chip8
