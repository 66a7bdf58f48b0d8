import Chip8.Proofs.Machine.Faults

/-!
# Environments

Apart from the things that a program works with, a machine contains an `Environment`: the two
timers, the keypad and the source of random bytes.  A program learns about it through a few
instructions, and each of them samples one thing: the next random byte under a mask, the delay
timer, whether one key is pressed, or which is the lowest pressed key.  `Machine.sample` is what
an instruction samples.

The main statement is `cycle_within`: a cycle whose instruction samples the same in another
environment has the same outcome there, except that the environment follows the instruction.
`Environment.follow` says how: a byte is drawn, or a timer is set to the value of a register, and
the keypad always stays.
-/

namespace Chip8

/-- What a machine contains besides the things that a program works with. -/
structure Environment (ρ : Type) where
  delay : UInt8
  sound : UInt8
  keypad : Keypad
  random : ρ

namespace Environment

variable {ρ : Type}

/-- The environment after an instruction, which may draw a byte or set a timer to the value of a
register. -/
def follow [ByteSource ρ] (e : Environment ρ) (value : Register → UInt8) :
    Instruction → Environment ρ
  | .random _ _ => { e with random := (ByteSource.next e.random).2 }
  | .setDelay x => { e with delay := value x }
  | .setSound x => { e with sound := value x }
  | _ => e

/-- No instruction writes the keypad. -/
@[simp] theorem keypad_follow [ByteSource ρ] (e : Environment ρ) (value : Register → UInt8)
    (i : Instruction) : (e.follow value i).keypad = e.keypad := by
  cases i <;> rfl

end Environment

/-- What one instruction learns about an environment. -/
inductive Sample where
  | nothing
  | byte (kept : UInt8)
  | timer (value : UInt8)
  | pressed (down : Bool)
  | lowest (key : Option Key)
deriving DecidableEq

namespace Machine

variable {ρ σ : Type}

/-- The environment of a machine. -/
def environment (m : Machine ρ) : Environment ρ where
  delay := m.delay
  sound := m.sound
  keypad := m.keypad
  random := m.random

/-- The machine in another environment. -/
def within (m : Machine ρ) (e : Environment σ) : Machine σ where
  memory := m.memory
  registers := m.registers
  index := m.index
  pc := m.pc
  stack := m.stack
  delay := e.delay
  sound := e.sound
  keypad := e.keypad
  screen := m.screen
  random := e.random

variable [ByteSource ρ] [ByteSource σ]

/-! ### One instruction in two environments -/

/-- What an instruction learns about the environment of a machine: the bits that it keeps of the
next random byte, the delay timer, whether the key named by its register is pressed, or the lowest
pressed key. -/
def sample (m : Machine ρ) : Instruction → Sample
  | .random _ mask => .byte ((ByteSource.next m.random).1 &&& mask)
  | .readDelay _ => .timer m.delay
  | .skipIfPressed x | .skipUnlessPressed x => .pressed (m.keypad.isPressed (m.reg x))
  | .awaitKey _ => .lowest m.keypad.lowest?
  | _ => .nothing

omit [ByteSource ρ] [ByteSource σ] in
@[simp] theorem skipIf_within (m : Machine ρ) (e : Environment σ) (condition : Bool) :
    (m.within e).skipIf condition = (m.skipIf condition).within e := by
  cases condition <;> rfl

/-- An instruction that samples the same in another environment leaves the same machine there, in
the environment that follows. -/
theorem machine_execute_within {m : Machine ρ} {e : Environment σ} {i : Instruction}
    (samples : m.sample i = (m.within e).sample i) :
    ((m.within e).execute i).machine = (m.execute i).machine.within (e.follow m.reg i) := by
  have reg : (m.within e).reg = m.reg := rfl
  have stack : (m.within e).stack = m.stack := rfl
  have pc : (m.within e).pc = m.pc := rfl
  cases i with
  | ret =>
    simp only [execute, stack]
    cases m.stack.pop? <;> rfl
  | call target =>
    simp only [execute, stack, pc]
    cases m.stack.push? m.pc <;> rfl
  | skipIfConst x value => exact skipIf_within m e _
  | skipUnlessConst x value => exact skipIf_within m e _
  | skipIfSame x y => exact skipIf_within m e _
  | skipUnlessSame x y => exact skipIf_within m e _
  | jumpOffset base =>
    simp only [execute, reg]
    split <;> rfl
  | random x mask =>
    have drawn : (ByteSource.next m.random).1 &&& mask = (ByteSource.next e.random).1 &&& mask :=
      Sample.byte.inj samples
    simp only [execute, drawn]
    rfl
  | skipIfPressed x =>
    have pressed : m.keypad.isPressed (m.reg x) = e.keypad.isPressed (m.reg x) :=
      Sample.pressed.inj samples
    simp only [execute, pressed]
    exact skipIf_within m e _
  | skipUnlessPressed x =>
    have pressed : m.keypad.isPressed (m.reg x) = e.keypad.isPressed (m.reg x) :=
      Sample.pressed.inj samples
    simp only [execute, pressed]
    exact skipIf_within m e _
  | readDelay x =>
    have delay : m.delay = e.delay := Sample.timer.inj samples
    simp only [execute, delay]
    rfl
  | awaitKey x =>
    have lowest : m.keypad.lowest? = e.keypad.lowest? := Sample.lowest.inj samples
    have keypad : (m.within e).keypad = e.keypad := rfl
    simp only [execute, awaitKey, lowest, keypad]
    cases e.keypad.lowest? <;> rfl
  | _ => rfl

/-- The environment after an instruction follows it. -/
theorem environment_execute (m : Machine ρ) (i : Instruction) :
    (m.execute i).machine.environment = m.environment.follow m.reg i := by
  have same : (m.execute i).machine =
      (m.execute i).machine.within (m.environment.follow m.reg i) :=
    machine_execute_within (e := m.environment) rfl
  rw [same]
  rfl

/-- Whether an instruction meets a fault does not depend on the environment. -/
theorem fault_execute_within (m : Machine ρ) (e : Environment σ) (i : Instruction) :
    ((m.within e).execute i).fault = (m.execute i).fault := by
  apply Option.ext
  intro f
  rw [execute_fault_eq_some_iff, execute_fault_eq_some_iff]
  exact Iff.rfl

/-! ### Cycles -/

@[simp] theorem sample_advance (m : Machine ρ) (i : Instruction) :
    m.advance.sample i = m.sample i := by
  cases i <;> rfl

/-- A cycle whose instruction samples the same in another environment has the same fault there, if
any, and leaves the same machine in the environment that follows. -/
theorem cycle_within {m : Machine ρ} {e : Environment σ}
    (samples : m.sample m.fetch = (m.within e).sample m.fetch) :
    (m.within e).cycle.fault = m.cycle.fault ∧
      (m.within e).cycle.machine = m.cycle.machine.within (e.follow m.reg m.fetch) := by
  have fetched : (m.within e).fetch = m.fetch := rfl
  have moved : (m.within e).advance = m.advance.within e := rfl
  have fault := fault_execute_within m.advance e m.fetch
  have machine := machine_execute_within (m := m.advance) (e := e) (i := m.fetch) (by
    rwa [← moved, sample_advance, sample_advance])
  refine ⟨fault, ?_⟩
  simp only [cycle, fetched, moved, fault, machine]
  split <;> rfl

/-- The environment after a cycle follows the instruction. -/
theorem environment_cycle (m : Machine ρ) :
    m.cycle.machine.environment = m.environment.follow m.reg m.fetch := by
  have same : m.cycle.machine = m.cycle.machine.within (m.environment.follow m.reg m.fetch) :=
    (cycle_within (e := m.environment) rfl).2
  rw [same]
  rfl

/-- A cycle leaves the keypad. -/
@[simp] theorem keypad_cycle (m : Machine ρ) : m.cycle.machine.keypad = m.keypad := by
  have environment := congrArg Environment.keypad m.environment_cycle
  rwa [Environment.keypad_follow] at environment

end Machine

end Chip8
