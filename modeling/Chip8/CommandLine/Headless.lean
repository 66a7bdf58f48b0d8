import Chip8.CommandLine.Arguments
import Chip8.CommandLine.Exit
import Chip8.Host.Session
import Chip8.Screen.Text
/-!
# Running without a terminal

The headless command runs a program for a number of cycles without keys and prints the final
screen. Time is simulated: one iteration of the host loop is made for each cycle, at the time that
the cycle has after the delays before it. The number of the cycle is counted in 32 bits when its
time is computed, so the clock starts again after 2^32 cycles. The first failure ends the command,
and then the screen is not printed.
-/

namespace Chip8

/-- What the headless command is asked to do. -/
structure HeadlessOptions where
  cycles : Nat := 1000
  /-- The delay between two cycles, in milliseconds. -/
  delay : Nat := 2
  seed : Option UInt64 := none
  program : String
deriving DecidableEq

namespace HeadlessOptions

/-- The options that the headless command knows. Verbosity is accepted, but nothing is logged. -/
def specs : List OptionSpec :=
  [{ long := "cycles", short := some 'c' },
   { long := "delay", short := some 'd' },
   { long := "seed", short := some 's' },
   { long := "verbose", short := some 'v', takesValue := false }]

/-- Read the command line of the headless command. -/
def parse? (args : List String) : Option HeadlessOptions := do
  let given ← Argument.readAll? specs args
  let cycles ← Argument.optionOr? given "cycles" 1000 parseCount?
  let delay ← Argument.optionOr? given "delay" 2 parseCount?
  let seed ← Argument.optionOr? given "seed" none fun text =>
    (parseCount? text).map fun n => some (UInt64.ofNat n)
  let program ← Argument.soleOperand? given
  return { cycles, delay, seed, program }

end HeadlessOptions

namespace Headless

/-- The pace of a run with a delay in milliseconds. -/
def pace (delay : Nat) : Pace :=
  { cycleDelay := delay * millisecond }

/-- The moment of the iteration with number `k`, counted from zero, of a run that starts at time
zero. -/
def schedule (delay k : Nat) : Moment where
  now := (delay * millisecond * ((k + 1) % UInt32.size) : Nat)

/-- Run a machine for a number of cycles. -/
def runMachine {ρ : Type} [ByteSource ρ] (m : Machine ρ) (delay cycles : Nat) : Session ρ :=
  Session.followFor (schedule delay) { host := .startingAt m (pace delay) 0 } cycles

/-- The end of a session: the screen, unless it failed. -/
def exitOf {ρ : Type} (s : Session ρ) : Exit :=
  match s.ending with
  | .failed cause => .failed cause ""
  | _ => { code := 0, output := s.host.machine.screen.text }

/-- Run the command on the contents of its program file; `entropy` is the seed if none was given. -/
def run (o : HeadlessOptions) (contents : FileContents) (entropy : UInt64) : Exit :=
  match Machine.bootFile contents (randomSource o.seed entropy) with
  | .error cause => .failed cause ""
  | .ok m => exitOf (runMachine m o.delay o.cycles)

/-- Run the command on a command line, with files read by `files`. -/
def runCommand (args : List String) (files : String → FileContents) (entropy : UInt64) : Exit :=
  match HeadlessOptions.parse? args with
  | none => .badUsage
  | some o => run o (files o.program) entropy

end Headless

end Chip8
