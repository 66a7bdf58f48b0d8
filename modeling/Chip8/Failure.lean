import Chip8.Memory.Image
import Chip8.Text.Hexadecimal
/-!
# Failures

`Fault` says why an instruction cannot be carried out, and at which address it stands. `IoFailure`
says why a file cannot be read or a frame cannot be shown. `Failure` covers both, and the program
that is too large to be loaded. Each failure has two texts: `Failure.message` is a sentence for
the user, and `Failure.details` shows the cause with its fields, as a command prints it when it
gives up.
-/

namespace Chip8

/-- Why the instruction at address `pc` cannot be carried out. -/
inductive Fault where
  /-- A call while all slots of the call stack are in use. -/
  | stackOverflow (pc : UInt16)
  /-- A return without a pending call. -/
  | stackUnderflow (pc : UInt16)
  /-- A jump with offset to an address of more than sixteen bits. No word of a program asks for
  it. -/
  | addressOverflow (pc : UInt16)
deriving DecidableEq

/-- Why the outside world refuses a request. -/
inductive IoFailure where
  /-- There is no file of this name. -/
  | notFound
  /-- The name is that of a directory. -/
  | isDirectory
  /-- Any other reason, with its text. -/
  | other (text : String)
deriving DecidableEq

/-- Everything that can go wrong while a machine is loaded or run. -/
inductive Failure where
  /-- The program has more bytes than fit in memory. -/
  | programTooLarge (size : Nat)
  | fault (cause : Fault)
  | io (cause : IoFailure)
deriving DecidableEq

/-- An address as it appears in messages and records. -/
def addressNumeral (address : UInt16) : String :=
  Hexadecimal.numeral 3 address.toNat

/-- The sentence that describes a fault. -/
def Fault.message : Fault → String
  | stackOverflow pc => s!"stack overflow at {addressNumeral pc}"
  | stackUnderflow pc => s!"stack underflow at {addressNumeral pc}"
  | addressOverflow pc => s!"address overflow at {addressNumeral pc}"

/-- A fault with its fields. -/
def Fault.details : Fault → String
  | stackOverflow pc => s!"StackOverflow \x7b pc: {pc.toNat} \x7d"
  | stackUnderflow pc => s!"StackUnderflow \x7b pc: {pc.toNat} \x7d"
  | addressOverflow pc => s!"AddressOverflow \x7b pc: {pc.toNat} \x7d"

/-- The sentence that describes a refusal. -/
def IoFailure.message : IoFailure → String
  | notFound => "No such file or directory (os error 2)"
  | isDirectory => "Is a directory (os error 21)"
  | other text => text

/-- A refusal with its fields. -/
def IoFailure.details : IoFailure → String
  | notFound => "Io(Os \x7b code: 2, kind: NotFound, message: \"No such file or directory\" \x7d)"
  | isDirectory => "Io(Os \x7b code: 21, kind: IsADirectory, message: \"Is a directory\" \x7d)"
  | other text => s!"Io(Custom \x7b kind: Other, error: \"{text}\" \x7d)"

namespace Failure

/-- The sentence that describes a failure. -/
def message : Failure → String
  | programTooLarge size =>
    s!"program is {size} bytes, but at most {Memory.capacity} bytes fit in memory"
  | fault cause => cause.message
  | io cause => cause.message

/-- A failure with its fields. -/
def details : Failure → String
  | programTooLarge size => s!"RomTooLarge \x7b size: {size}, max: {Memory.capacity} \x7d"
  | fault cause => cause.details
  | io cause => cause.details

end Failure

end Chip8
