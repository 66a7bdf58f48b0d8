import Chip8.Instruction.Decode
import Chip8.Machine.Execute
/-!
# Cycles

A cycle fetches the two bytes at the program counter, decodes them, moves the program counter
behind them and executes the instruction. If the instruction meets a fault, the program counter is
put back, so that a failed cycle leaves the machine as it was. `Machine.cycles` runs several
cycles and stops at the first fault.
-/

namespace Chip8.Machine

variable {ρ : Type}

/-- The instruction at the program counter. -/
def fetch (m : Machine ρ) : Instruction :=
  .ofBytes (m.memory.read m.pc.toNat) (m.memory.read (m.pc.toNat + 1))

/-- The machine with its program counter behind the instruction it points at. -/
def advance (m : Machine ρ) : Machine ρ :=
  { m with pc := m.pc + 2 }

variable [ByteSource ρ]

/-- Fetch and execute one instruction. -/
def cycle (m : Machine ρ) : Outcome ρ :=
  let executed := m.advance.execute m.fetch
  { machine :=
      if executed.fault.isSome then { executed.machine with pc := m.pc } else executed.machine
    fault := executed.fault
    log := .executing m.pc m.fetch :: executed.log }

/-- A succession of cycles: the machine they left behind, how many of them succeeded, the fault
that stopped them, and their records. -/
structure Run (ρ : Type) where
  machine : Machine ρ
  succeeded : Nat := 0
  fault : Option Fault := none
  log : Array LogRecord := #[]

/-- One more cycle. -/
def Run.next (r : Run ρ) : Run ρ :=
  let outcome := r.machine.cycle
  { machine := outcome.machine
    succeeded := if outcome.fault.isNone then r.succeeded + 1 else r.succeeded
    fault := outcome.fault
    log := r.log ++ outcome.log }

/-- At most `count` more cycles, none after a fault. -/
def Run.extend (r : Run ρ) : Nat → Run ρ
  | 0 => r
  | count + 1 => if r.fault.isSome then r else r.next.extend count

/-- Run at most `count` cycles, up to the first that fails. -/
def cycles (m : Machine ρ) (count : Nat) : Run ρ :=
  Run.extend { machine := m } count

/-- A cycle without a fault leaves the machine that its instruction leaves. -/
theorem cycle_machine_of_fault_eq_none {m : Machine ρ}
    (h : (m.advance.execute m.fetch).fault = none) :
    m.cycle.machine = (m.advance.execute m.fetch).machine := by
  simp [cycle, h]

@[simp] theorem cycle_fault (m : Machine ρ) :
    m.cycle.fault = (m.advance.execute m.fetch).fault := rfl

end Chip8.Machine
