import Chip8.Failure
import Chip8.Instruction.Text
/-!
# Log records

A machine reports what it does in records. `LogRecord.executing` is the trace of a cycle; the
records for a return or a call outside the bounds of the call stack and for a word without a
meaning are warnings. `LogRecord.text` is the text of a record and `LogRecord.line` puts its level
in front.
-/

namespace Chip8

/-- The importance of a record. -/
inductive LogLevel where
  | trace
  | debug
  | warn
deriving DecidableEq

/-- What a machine reports. -/
inductive LogRecord where
  /-- A program of `size` bytes was loaded. -/
  | loaded (size : Nat)
  /-- A cycle began with this instruction at address `pc`. -/
  | executing (pc : UInt16) (instruction : Instruction)
  /-- A return found no pending call. -/
  | emptyReturn
  /-- A call found all slots of the call stack in use. -/
  | fullCall (target : UInt16)
  /-- A word without a meaning was passed over. -/
  | skipped (word : Word)
deriving DecidableEq

/-- The name of a level. -/
def LogLevel.name : LogLevel → String
  | trace => "TRACE"
  | debug => "DEBUG"
  | warn => "WARN"

namespace LogRecord

/-- The level of a record. -/
def level : LogRecord → LogLevel
  | loaded _ => .debug
  | executing _ _ => .trace
  | emptyReturn | fullCall _ | skipped _ => .warn

/-- The text of a record. -/
def text : LogRecord → String
  | loaded size => s!"Loaded {size} byte program"
  | executing pc instruction => s!"{addressNumeral pc}: {instruction.text}"
  | emptyReturn => "Return with an empty stack"
  | fullCall target => s!"Call to {addressNumeral target} with a full stack"
  | skipped word => s!"Unknown opcode {Hexadecimal.numeral 4 word.toNat}, skipping"

/-- The level and the text of a record. -/
def line (r : LogRecord) : String :=
  r.level.name ++ " " ++ r.text

end LogRecord

end Chip8
