/-!
# Command-line arguments

`Argument.readAll?` reads the arguments of a command by the usual conventions. An option has a long
name, given behind two hyphens, and may have a short name of one character, given behind one
hyphen. An option that takes a value has it in the next argument, or attached: behind an equals
sign, or, for a short name, directly. Options without a value may share one hyphen. An argument of
two hyphens makes all later arguments operands; a single hyphen is an operand too.

Reading fails on an unknown option and on a missing or empty value. An argument that begins like
an option does not count as the value of the option before it.
-/

namespace Chip8

/-- An option that a command knows. -/
structure OptionSpec where
  long : String
  short : Option Char := none
  takesValue : Bool := true
deriving DecidableEq

/-- One piece of a command line. -/
inductive Argument where
  /-- The option with this long name was given, with a value. -/
  | value (long text : String)
  /-- The option with this long name was given, without a value. -/
  | flag (long : String)
  | operand (text : String)
deriving DecidableEq

namespace Argument

/-- Whether a text begins like an option: with a hyphen, and more behind it. -/
def looksLikeOption (text : String) : Bool :=
  match text.toList with
  | '-' :: _ :: _ => true
  | _ => false

/-- A value that is attached to its option, without the equals signs in front of it; none if it is
empty. -/
def attachedValue? (chars : List Char) : Option String :=
  match chars.dropWhile (· = '=') with
  | [] => none
  | c :: rest => some (String.ofList (c :: rest))

/-- What the characters of one option argument say: the pieces that are complete, and the option
whose value is still to come. -/
structure Reading where
  given : List Argument
  awaiting : Option OptionSpec := none
deriving DecidableEq

/-- Read short names that share one hyphen. -/
def readShort? (specs : List OptionSpec) : List Char → Option Reading
  | [] => some { given := [] }
  | c :: rest =>
    match specs.find? fun s => s.short == some c with
    | none => none
    | some s =>
      if s.takesValue then
        match rest with
        | [] => some { given := [], awaiting := some s }
        | _ => (attachedValue? rest).map fun text => { given := [.value s.long text] }
      else
        (readShort? specs rest).map fun r => { r with given := .flag s.long :: r.given }

/-- Read a long name, with the value behind an equals sign if there is one. A flag has no use for
a value and ignores it. -/
def readLong? (specs : List OptionSpec) (chars : List Char) : Option Reading :=
  let name := String.ofList (chars.takeWhile (· ≠ '='))
  match specs.find? fun s => s.long == name with
  | none => none
  | some s =>
    if s.takesValue then
      match chars.dropWhile (· ≠ '=') with
      | [] => some { given := [], awaiting := some s }
      | attached => (attachedValue? attached).map fun text => { given := [.value s.long text] }
    else some { given := [.flag s.long] }

/-- Read one argument that is not behind two lone hyphens. Further hyphens in front of a long name
do not count. -/
def readOne? (specs : List OptionSpec) (text : String) : Option Reading :=
  match text.toList with
  | '-' :: '-' :: rest => readLong? specs (rest.dropWhile (· = '-'))
  | '-' :: c :: rest => readShort? specs (c :: rest)
  | _ => some { given := [.operand text] }

/-- Read the arguments of a command. -/
def readAll? (specs : List OptionSpec) : List String → Option (List Argument)
  | [] => some []
  | text :: rest =>
    if text = "--" then some (rest.map .operand)
    else
      match readOne? specs text with
      | none => none
      | some { given, awaiting := none } => (readAll? specs rest).map (given ++ ·)
      | some { given, awaiting := some s } =>
        match rest with
        | [] => none
        | next :: rest =>
          if looksLikeOption next ∨ next = "" then none
          else (readAll? specs rest).map fun later => given ++ .value s.long next :: later

/-- The values given for the option with a long name. -/
def valuesOf (given : List Argument) (long : String) : List String :=
  given.filterMap fun
    | .value name text => if name = long then some text else none
    | _ => none

/-- The operands, in order. -/
def operandsOf (given : List Argument) : List String :=
  given.filterMap fun
    | .operand text => some text
    | _ => none

/-- The value of an option that may be given once, or its default; none if the option is repeated
or its value is not understood. -/
def optionOr? {α : Type} (given : List Argument) (long : String) (default : α)
    (understand : String → Option α) : Option α :=
  match valuesOf given long with
  | [] => some default
  | [text] => understand text
  | _ => none

/-- The only operand. -/
def soleOperand? (given : List Argument) : Option String :=
  match operandsOf given with
  | [text] => some text
  | _ => none

end Argument

/-- The number below 2^64 that a text writes in decimal, perhaps behind a plus sign. -/
def parseCount? (text : String) : Option Nat :=
  let digits :=
    match text.toList with
    | '+' :: rest => rest
    | all => all
  if digits ≠ [] ∧ digits.all Char.isDigit then
    let value := digits.foldl (fun n c => 10 * n + (c.toNat - '0'.toNat)) 0
    if value < UInt64.size then some value else none
  else none

end Chip8
