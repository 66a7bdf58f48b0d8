import Chip8.CommandLine.Arguments
import Chip8.CommandLine.Exit
import Chip8.Terminal.Console
/-!
# Playing from the command line

The play command runs a program on a terminal until it fails or the escape key is typed.
`Playing.play` is the command on a simulated clock, on which all typed bytes arrive before the
first iteration.
-/

namespace Chip8

/-- What the play command is asked to do. -/
structure PlayOptions where
  /-- The delay between two cycles, in milliseconds. -/
  delay : Nat := 2
  /-- How long a key counts as held after it was pressed, in milliseconds. -/
  hold : Nat := 150
  seed : Option UInt64 := none
  program : String
deriving DecidableEq

namespace PlayOptions

/-- The options that the play command knows. Verbosity is accepted, but nothing is logged. -/
def specs : List OptionSpec :=
  [{ long := "delay", short := some 'd' },
   { long := "hold" },
   { long := "seed", short := some 's' },
   { long := "verbose", short := some 'v', takesValue := false }]

/-- Read the command line of the play command. -/
def parse? (args : List String) : Option PlayOptions := do
  let given ← Argument.readAll? specs args
  let delay ← Argument.optionOr? given "delay" 2 parseCount?
  let hold ← Argument.optionOr? given "hold" 150 parseCount?
  let seed ← Argument.optionOr? given "seed" none fun text =>
    (parseCount? text).map fun n => some (UInt64.ofNat n)
  let program ← Argument.soleOperand? given
  return { delay, hold, seed, program }

end PlayOptions

namespace Playing

/-- A console on which nothing has been typed yet, whose clock shows `start`. -/
def console {ρ : Type} (o : PlayOptions) (m : Machine ρ) (start : Int) : Console ρ where
  host := .startingAt m { cycleDelay := o.delay * millisecond } start
  keys := .empty (o.hold * millisecond)

/-- The events of typed bytes, all read at one time. -/
def arrivals (typed : List UInt8) (time : Int) : List Arrival :=
  (TypedBytes.events typed).map fun event => { event, time }

/-- The end of a transcript: the text that was sent, and the failure if there was one. -/
def exitOf {ρ : Type} (t : Transcript ρ) : Exit :=
  match t.console.ending with
  | .failed cause => .failed cause t.sent
  | _ => { code := 0, output := t.sent }

/-- Run the command on the contents of its program file, for at most `limit` iterations. -/
def run (o : PlayOptions) (contents : FileContents) (entropy : UInt64) (typed : List UInt8)
    (limit : Nat) : Exit :=
  match Machine.bootFile contents (randomSource o.seed entropy) with
  | .error cause => .failed cause ""
  | .ok m =>
    exitOf <|
      Console.play { console o m 0 with waiting := arrivals typed 0 } (o.delay * millisecond) limit

/-- Run the command on a command line, with files read by `files`. -/
def runCommand (args : List String) (files : String → FileContents) (entropy : UInt64)
    (typed : List UInt8) (limit : Nat) : Exit :=
  match PlayOptions.parse? args with
  | none => .badUsage
  | some o => run o (files o.program) entropy typed limit

end Playing

end Chip8
