import Chip8.Machine.Action
import Chip8.Screen.Frame
import Mathlib.Algebra.Group.Nat.Defs

/-!
# Stored machines and checked operations

A `Machine` can only be in meaningful states: its call stack is at most sixteen deep, its pixels
are lit or dark, and its operations cannot leave an array.  `Storage` is the same machine as plain
data, arrays of words of fixed width that may hold anything: a depth up to 255, screen cells of any
value.

On such data an operation may have no result.  `Checked` computations stop with a `Trap` when they
index outside an array or when an unsigned result does not fit in its word; only the additions and
subtractions that are meant to wrap around are left unchecked.  `Storage.execute`,
`Storage.cycle` and `Storage.perform` carry out instructions, cycles and actions in this way,
loop by loop and cell by cell, and `Storage.boot` loads a program.  `Machine.storage` is the stored
form of a machine.
-/

namespace Chip8

/-- Why a checked computation has no result. -/
inductive Trap where
  /-- An index outside the bounds of an array. -/
  | outOfRange
  /-- A number that does not fit in its word. -/
  | overflow
deriving DecidableEq

/-- A computation that stops at the first operation without a result. -/
abbrev Checked (α : Type) := Except Trap α

namespace Checked

variable {α : Type} {n : Nat}

/-- The entry of an array at an index. -/
def get (entries : Vector α n) (i : Nat) : Checked α :=
  if h : i < n then .ok entries[i] else .error .outOfRange

/-- Replace the entry of an array at an index. -/
def set (entries : Vector α n) (i : Nat) (value : α) : Checked (Vector α n) :=
  if h : i < n then .ok (entries.set i value h) else .error .outOfRange

/-- Replace consecutive entries of an array, the first of them at `place`. -/
def copy (entries : Vector α n) (place : Nat) : List α → Checked (Vector α n)
  | [] => return entries
  | value :: rest => do
    let written ← set entries place value
    copy written (place + 1) rest

/-- The sum of two words of `bits` bits. -/
def add (bits a b : Nat) : Checked Nat :=
  if a + b < 2 ^ bits then .ok (a + b) else .error .overflow

/-- The difference of two unsigned words. -/
def sub (a b : Nat) : Checked Nat :=
  if b ≤ a then .ok (a - b) else .error .overflow

/-- The product of two words of `bits` bits. -/
def mul (bits a b : Nat) : Checked Nat :=
  if a * b < 2 ^ bits then .ok (a * b) else .error .overflow

/-- A byte shifted right by less than its width. -/
def shiftRight (byte : UInt8) (count : Nat) : Checked UInt8 :=
  if count < 8 then .ok (byte >>> UInt8.ofNat count) else .error .overflow

/-- A timer counted down once, stopping at zero. -/
def countDown (timer : UInt8) : Checked UInt8 :=
  if 0 < timer then (sub timer.toNat 1).map UInt8.ofNat else .ok timer

theorem get_of_lt (entries : Vector α n) {i : Nat} (h : i < n) :
    get entries i = .ok entries[i] :=
  dif_pos h

theorem set_of_lt (entries : Vector α n) {i : Nat} (h : i < n) (value : α) :
    set entries i value = .ok (entries.set i value h) :=
  dif_pos h

theorem add_of_lt {bits a b : Nat} (h : a + b < 2 ^ bits) : add bits a b = .ok (a + b) :=
  if_pos h

/-- An address and an offset below 256 have a sum in 64 bits. -/
theorem add_word (address : UInt16) {k : Nat} (hk : k < 256) :
    add 64 address.toNat k = .ok (address.toNat + k) := by
  have word : address.toNat < 65536 := address.toNat_lt
  exact add_of_lt (by omega)

theorem sub_of_le {a b : Nat} (h : b ≤ a) : sub a b = .ok (a - b) :=
  if_pos h

theorem mul_of_lt {bits a b : Nat} (h : a * b < 2 ^ bits) : mul bits a b = .ok (a * b) :=
  if_pos h

theorem shiftRight_of_lt (byte : UInt8) {count : Nat} (h : count < 8) :
    shiftRight byte count = .ok (byte >>> UInt8.ofNat count) :=
  if_pos h

end Checked

/-- A machine as plain data. -/
structure Storage (ρ : Type) where
  memory : Vector UInt8 4096
  registers : Vector UInt8 16
  index : UInt16
  pc : UInt16
  slots : Vector UInt16 16
  depth : UInt8
  delay : UInt8
  sound : UInt8
  keypad : Vector Bool 16
  screen : Frame
  random : ρ

/-- The stored form of a machine. -/
def Machine.storage {ρ : Type} (m : Machine ρ) : Storage ρ where
  memory := m.memory.cells
  registers := m.registers.entries
  index := m.index
  pc := m.pc
  slots := m.stack.slots
  depth := UInt8.ofNat m.stack.depth
  delay := m.delay
  sound := m.sound
  keypad := m.keypad.entries
  screen := m.screen.toFrame
  random := m.random

namespace Storage

variable {ρ : Type}

/-- What an action leaves behind: the stored machine and the fault, if there was one. -/
abbrev Reply (ρ : Type) := Storage ρ × Option Fault

/-- Load a program into a stored machine that is otherwise new, unless it is too large. -/
def boot (program : List UInt8) (random : ρ) : Checked (Except Failure (Storage ρ)) :=
  if Memory.capacity < program.length then
    return .error (.programTooLarge program.length)
  else do
    let font ← Checked.copy (Vector.replicate 4096 0) Memory.fontStart Memory.font
    let memory ← Checked.copy font Memory.programStart program
    return .ok {
      memory := memory
      registers := Vector.replicate 16 0
      index := 0
      pc := UInt16.ofNat Memory.programStart
      slots := Vector.replicate 16 0
      depth := 0
      delay := 0
      sound := 0
      keypad := Vector.replicate 16 false
      screen := Vector.replicate 2048 Frame.dark
      random := random }

/-- A computation that meets no fault. -/
def finish (computed : Checked (Storage ρ)) : Checked (Reply ρ) :=
  computed.map fun s => (s, none)

/-- The value of a register. -/
def reg (s : Storage ρ) (x : Register) : Checked UInt8 :=
  Checked.get s.registers x.val

/-- Replace the value of a register. -/
def setReg (s : Storage ρ) (x : Register) (value : UInt8) : Checked (Storage ρ) := do
  let registers ← Checked.set s.registers x.val value
  return { s with registers := registers }

/-- Replace the value of a register, and then the flag. -/
def setFlagged (s : Storage ρ) (x : Register) (value : UInt8) (flag : Bool) :
    Checked (Storage ρ) := do
  let result ← s.setReg x value
  result.setReg Register.flag flag.toUInt8

/-- Pass over the next instruction if a condition holds; the program counter wraps around. -/
def skipIf (s : Storage ρ) (condition : Bool) : Storage ρ :=
  if condition then { s with pc := s.pc + 2 } else s

/-- The byte at an address, which wraps around the end of memory. -/
def read (s : Storage ρ) (address : Nat) : Checked UInt8 :=
  Checked.get s.memory (address % 4096)

/-- Replace the byte at an address, which wraps around the end of memory. -/
def write (s : Storage ρ) (address : Nat) (byte : UInt8) : Checked (Storage ρ) := do
  let memory ← Checked.set s.memory (address % 4096) byte
  return { s with memory := memory }

/-- Whether the key named by a byte is pressed; a byte above fifteen names none. -/
def isPressed (s : Storage ρ) (name : UInt8) : Bool :=
  s.keypad[name.toNat]?.getD false

/-- Store the place of the first pressed key, or go back by one instruction. -/
def awaitKey (s : Storage ρ) (x : Register) : Checked (Storage ρ) :=
  match s.keypad.toList.findIdx? id with
  | some place => s.setReg x (UInt8.ofNat place)
  | none => return { s with pc := s.pc - 2 }

/-! ### Small operations complete -/

theorem reg_eq (s : Storage ρ) (x : Register) : s.reg x = .ok (s.registers.get x) :=
  Checked.get_of_lt _ x.isLt

theorem setReg_eq (s : Storage ρ) (x : Register) (value : UInt8) :
    s.setReg x value = .ok { s with registers := s.registers.set x.val value x.isLt } := by
  rw [setReg, Checked.set_of_lt _ x.isLt]
  rfl

theorem read_eq (s : Storage ρ) (address : Nat) :
    s.read address = .ok (Memory.read ⟨s.memory⟩ address) :=
  Checked.get_of_lt _ (Nat.mod_lt _ (by decide))

theorem write_eq (s : Storage ρ) (address : Nat) (byte : UInt8) :
    s.write address byte =
      .ok { s with memory := (Memory.write ⟨s.memory⟩ address byte).cells } := by
  rw [write, Checked.set_of_lt _ (Nat.mod_lt _ (by decide))]
  rfl

/-! ### Small operations on the stored form of a machine -/

@[simp] theorem reg_storage (m : Machine ρ) (x : Register) : m.storage.reg x = .ok (m.reg x) :=
  m.storage.reg_eq x

@[simp] theorem setReg_storage (m : Machine ρ) (x : Register) (value : UInt8) :
    m.storage.setReg x value = .ok (m.setReg x value).storage :=
  m.storage.setReg_eq x value

@[simp] theorem setFlagged_storage (m : Machine ρ) (x : Register) (value : UInt8) (flag : Bool) :
    m.storage.setFlagged x value flag = .ok (m.setFlagged x value flag).storage := by
  rw [setFlagged, setReg_storage]
  exact setReg_storage (m.setReg x value) Register.flag flag.toUInt8

@[simp] theorem skipIf_storage (m : Machine ρ) (condition : Bool) :
    m.storage.skipIf condition = (m.skipIf condition).storage := by
  cases condition <;> rfl

@[simp] theorem read_storage (m : Machine ρ) (address : Nat) :
    m.storage.read address = .ok (m.memory.read address) :=
  m.storage.read_eq address

@[simp] theorem write_storage (m : Machine ρ) (address : Nat) (byte : UInt8) :
    m.storage.write address byte =
      .ok { m with memory := m.memory.write address byte }.storage :=
  m.storage.write_eq address byte

/-! ### Loops -/

/-- Write the `count` registers from register `k` on to memory, each behind `base` by its
number. -/
def dumpFrom (s : Storage ρ) (base k : Nat) : Nat → Checked (Storage ρ)
  | 0 => return s
  | count + 1 => do
    let value ← Checked.get s.registers k
    let address ← Checked.add 64 base k
    let written ← s.write address value
    written.dumpFrom base (k + 1) count

/-- Load the `count` registers from register `k` on from memory, each from behind `base` by its
number. -/
def loadFrom (s : Storage ρ) (base k : Nat) : Nat → Checked (Storage ρ)
  | 0 => return s
  | count + 1 => do
    let address ← Checked.add 64 base k
    let value ← s.read address
    let registers ← Checked.set s.registers k value
    loadFrom { s with registers := registers } base (k + 1) count

/-- Draw the bits of `byte` from the bit `k` on, `count` of them, into row `y` of a frame, the bit
`k` in column `x + k`.  The drawing ends at the right edge.  The second component says whether a
lit cell was inverted. -/
def drawBits (byte : UInt8) (x y k : Nat) : Nat → Frame × Bool → Checked (Frame × Bool)
  | 0, drawn => return drawn
  | count + 1, drawn => do
    let column ← Checked.add 64 x k
    if 64 ≤ column then
      return drawn
    else
      let shift ← Checked.sub 7 k
      let bit ← Checked.shiftRight byte shift
      if bit &&& 1 = 0 then
        drawBits byte x y (k + 1) count drawn
      else
        let start ← Checked.mul 64 y 64
        let place ← Checked.add 64 start column
        let cell ← Checked.get drawn.1 place
        let frame ← Checked.set drawn.1 place (cell ^^^ Frame.lit)
        drawBits byte x y (k + 1) count (frame, drawn.2 || cell == Frame.lit)

/-- Draw `count` rows of the sprite at the index from its row `k` on, row `k` in row `y + k` of the
frame.  The drawing ends at the lower edge. -/
def drawRows (s : Storage ρ) (x y k : Nat) : Nat → Frame × Bool → Checked (Frame × Bool)
  | 0, drawn => return drawn
  | count + 1, drawn => do
    let line ← Checked.add 64 y k
    if 32 ≤ line then
      return drawn
    else
      let address ← Checked.add 64 s.index.toNat k
      let byte ← s.read address
      let drawn ← drawBits byte x line 0 8 drawn
      s.drawRows x y (k + 1) count drawn

end Storage

end Chip8
