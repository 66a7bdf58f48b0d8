import Chip8.CommandLine.Headless
import Chip8.CommandLine.Playing
/-!
# The command

The first argument selects a command: `run` runs a program without a terminal, and `play` plays it
on one. This module reads files, the clock and the keyboard and writes what the commands say; it
decides nothing. To play, the terminal has to pass keys on as they are typed.
-/

namespace Chip8

/-- The bytes of a file, or the reason why it cannot be read. -/
def readProgram (path : String) : IO FileContents := do
  try
    return .ok (← IO.FS.readBinFile path).toList
  catch
    | .noFileOrDirectory .. => return .error .notFound
    | .inappropriateType .. => return .error .isDirectory
    | other => return .error (.other (toString other))

/-- A number that is hard to guess. -/
def readEntropy : IO UInt64 := do
  return (← IO.getRandomBytes 8).toList.foldl (fun n b => n <<< 8 ||| b.toUInt64) 0

/-- Write what a command says, and end with its code. -/
def finish (e : Exit) : IO UInt32 := do
  let output ← IO.getStdout
  output.putStr e.output
  output.flush
  if let some line := e.diagnostic then IO.eprintln line
  return e.code.toUInt32

/-- Explain how the command is used. -/
def explain : IO UInt32 := do
  IO.eprintln "usage: chip8 run [-c CYCLES] [-d MS] [-s SEED] [-v] PROGRAM"
  IO.eprintln "       chip8 play [-d MS] [--hold MS] [-s SEED] [-v] PROGRAM"
  return 1

/-- Run a program without a terminal. -/
def runCommand (args : List String) : IO UInt32 := do
  match HeadlessOptions.parse? args with
  | none => explain
  | some o => finish (Headless.run o (← readProgram o.program) (← readEntropy))

/-- Collect typed bytes until there are no more. -/
partial def listen (input : IO.FS.Stream) (typed : IO.Ref (List UInt8)) : IO Unit := do
  let bytes ← input.read 1024
  if bytes.isEmpty then return
  typed.modify (· ++ bytes.toList)
  listen input typed

/-- Write the text of commands to the terminal. -/
def send (commands : List TerminalCommand) : IO Unit := do
  let output ← IO.getStdout
  output.putStr (TerminalCommand.stream commands)
  output.flush

/-- Make iterations at the times that the clock shows until one does not resume. -/
partial def playOn (c : Console Keystream) (begun : List UInt8) (typed : IO.Ref (List UInt8)) :
    IO Ending := do
  let bytes ← typed.modifyGet fun bytes => (bytes, [])
  let now : Int := (← IO.monoNanosNow : Nat)
  let (events, begun) := TypedBytes.eventsFrom begun bytes
  let arrived := events.map fun event => { event, time := now : Arrival }
  let (c, commands) := { c with waiting := c.waiting ++ arrived }.step now
  unless commands.isEmpty do send commands
  match c.ending with
  | .resumed =>
    let rest := c.host.pace.cycleDelay - elapsed c.host.lastCycle (← IO.monoNanosNow : Nat)
    IO.sleep (rest / millisecond).toUInt32
    playOn c begun typed
  | ending => return ending

/-- Play a program on the terminal. -/
def playCommand (args : List String) : IO UInt32 := do
  match PlayOptions.parse? args with
  | none => explain
  | some o =>
    match Machine.bootFile (← readProgram o.program) (randomSource o.seed (← readEntropy)) with
    | .error cause => finish (.failed cause "")
    | .ok m =>
      let typed ← IO.mkRef []
      let _ ← IO.asTask (listen (← IO.getStdin) typed) .dedicated
      let console := Playing.console o m (← IO.monoNanosNow : Nat)
      send Painter.opening
      let ending ← playOn console [] typed
      send Painter.closing
      finish (Playing.exitOf { console := { console with ending } })

end Chip8

/-- Run the selected command. -/
def main (args : List String) : IO UInt32 :=
  match args with
  | "run" :: rest => Chip8.runCommand rest
  | "play" :: rest => Chip8.playCommand rest
  | _ => Chip8.explain
