/-!
# Typed bytes

A terminal sends what is typed as bytes. A character is sent in UTF-8. Control and a letter give
one of the bytes 1 to 26, control and one of the digits 4 to 7 give one of the bytes 28 to 31. Alt
and a character give the escape byte in front of the character. Arrow keys, function keys and the
mouse give sequences that begin with the escape byte. An escape byte that is not followed by
anything, or that is followed by another one, is the escape key.

`TypedBytes.classify` looks at the bytes since the last event. They may be the beginning of an
event, they may be an event, or they may be neither, in which case they are dropped.
`TypedBytes.events` splits what was typed at once into events.
-/

namespace Chip8

/-- A key of a keyboard. -/
inductive KeyCode where
  | char (c : Char)
  | escape
  /-- Enter, tabulator, backspace, arrow keys and function keys. -/
  | named
deriving DecidableEq

/-- A pressed key, with the modifiers that were held. -/
structure KeyPress where
  code : KeyCode
  control : Bool := false
  alt : Bool := false
deriving DecidableEq

/-- What a terminal reports. -/
inductive TerminalEvent where
  | press (key : KeyPress)
  /-- A movement of the mouse or an answer of the terminal. -/
  | other
deriving DecidableEq

namespace TypedBytes

/-- What the bytes since the last event are. -/
inductive Scan (α : Type) where
  /-- The beginning of an event. -/
  | incomplete
  /-- No beginning of any event. -/
  | rejected
  | complete (event : α)
deriving DecidableEq

/-- The number of bytes of a character in UTF-8 that begins with `first`. -/
def characterLength (first : UInt8) : Option Nat :=
  if first < 0x80 then some 1
  else if first < 0xC0 then none
  else if first < 0xE0 then some 2
  else if first < 0xF0 then some 3
  else if first < 0xF8 then some 4
  else none

/-- Whether a byte may stand in a character in UTF-8 after the first byte. -/
def isContinuation (byte : UInt8) : Bool :=
  byte &&& 0xC0 == 0x80

/-- Look for one character in UTF-8. -/
def scanCharacter (bytes : List UInt8) : Scan Char :=
  match bytes.toByteArray.utf8DecodeChar? 0 with
  | some c => .complete c
  | none =>
    match bytes with
    | [] => .incomplete
    | first :: rest =>
      match characterLength first with
      | some length =>
        if rest.all isContinuation && decide (bytes.length < length) then .incomplete
        else .rejected
      | none => .rejected

/-- Look at the bytes behind `ESC [ <`, a report of the mouse that ends with an `m` of either
case. -/
def scanMouse (bytes : List UInt8) : Scan TerminalEvent :=
  match bytes.getLast? with
  | some 0x6D | some 0x4D => .complete .other
  | _ => .incomplete

/-- Look at the bytes behind `ESC [` and a digit: a sequence that ends with a letter or another
byte from 64 to 126. With an `M` it reports the mouse, and with an `R` the position of the
cursor. -/
def scanNumbered (bytes : List UInt8) : Scan TerminalEvent :=
  match bytes.getLast? with
  | some last =>
    if last = 0x4D ∨ last = 0x52 then .complete .other
    else if 64 ≤ last ∧ last ≤ 126 then .complete (.press { code := .named })
    else .incomplete
  | none => .incomplete

/-- Look at the bytes behind `ESC [`. -/
def scanSequence : List UInt8 → Scan TerminalEvent
  | [] => .incomplete
  | kind :: rest =>
    if kind = 0x5B then
      match rest with
      | [] => .incomplete
      | final :: _ =>
        if 0x41 ≤ final ∧ final ≤ 0x45 then .complete (.press { code := .named })
        else .rejected
    else if kind ∈ [0x41, 0x42, 0x43, 0x44, 0x46, 0x48, 0x5A] then
      .complete (.press { code := .named })
    else if kind = 0x4D then
      if rest.length < 3 then .incomplete else .complete .other
    else if kind = 0x3C then scanMouse rest
    else if 0x30 ≤ kind ∧ kind ≤ 0x39 then scanNumbered rest
    else .rejected

/-- Look at the bytes behind `ESC O`. -/
def scanFunctionKey : List UInt8 → Scan TerminalEvent
  | [] => .incomplete
  | final :: _ =>
    if 0x50 ≤ final ∧ final ≤ 0x53 then .complete (.press { code := .named }) else .rejected

/-- A character with its modifiers, as an event. -/
def characterEvent (control alt : Bool) : Scan Char → Scan TerminalEvent
  | .incomplete => .incomplete
  | .rejected => .rejected
  | .complete c => .complete (.press { code := .char c, control := control, alt := alt })

/-- Look at the bytes behind an escape byte; `more` says that further bytes were typed at once. -/
def scanEscaped (bytes : List UInt8) (more : Bool) : Scan TerminalEvent :=
  match bytes with
  | [] => if more then .incomplete else .complete (.press { code := .escape })
  | second :: rest =>
    if second = 0x1B then .complete (.press { code := .escape })
    else if second = 0x4F then scanFunctionKey rest
    else if second = 0x5B then scanSequence rest
    else characterEvent false true (scanCharacter bytes)

/-- The character that lies `offset` places behind `base`. -/
def charFrom (base : Char) (offset : UInt8) : Char :=
  Char.ofNat (base.toNat + offset.toNat)

/-- Look at the bytes since the last event; `more` says that further bytes were typed at once. -/
def classify (bytes : List UInt8) (more : Bool) : Scan TerminalEvent :=
  match bytes with
  | [] => .incomplete
  | first :: rest =>
    if first = 0x1B then scanEscaped rest more
    else if first ∈ [0x09, 0x0A, 0x0D, 0x7F] then .complete (.press { code := .named })
    else if 0x01 ≤ first ∧ first ≤ 0x1A then
      .complete (.press { code := .char (charFrom 'a' (first - 0x01)), control := true })
    else if 0x1C ≤ first ∧ first ≤ 0x1F then
      .complete (.press { code := .char (charFrom '4' (first - 0x1C)), control := true })
    else characterEvent false false (scanCharacter bytes)

/-- Split bytes that were typed at once into events, behind bytes that begin an event. The second
component holds the bytes of an event that is not complete. -/
def eventsFrom (begun : List UInt8) : List UInt8 → List TerminalEvent × List UInt8
  | [] => ([], begun)
  | byte :: rest =>
    match classify (begun ++ [byte]) (!rest.isEmpty) with
    | .incomplete => eventsFrom (begun ++ [byte]) rest
    | .rejected => eventsFrom [] rest
    | .complete event =>
      let later := eventsFrom [] rest
      (event :: later.1, later.2)

/-- Split bytes that were typed at once into events. -/
def events (typed : List UInt8) : List TerminalEvent :=
  (eventsFrom [] typed).1

end TypedBytes

end Chip8
