import Chip8.Machine.Basic
import Chip8.Random.Source
import Chip8.Screen.Sprite
/-!
# Executing an instruction

`Machine.execute` carries out one instruction on a machine whose program counter already points
behind it. Its `Outcome` holds the machine afterwards, the fault if there was one, and the
records. An instruction that meets a fault leaves the machine as it was.

An instruction with a flag reads its operands first, then writes its result, and then the flag; if
the result goes to `VF` as well, the flag remains. Blocks at the index run over the end of memory
into its beginning. A sprite begins at its coordinates modulo the size of the screen and is cut
off at the edges.
-/

namespace Chip8

/-- What an instruction, or a cycle, leaves behind. -/
structure Outcome (ρ : Type) where
  machine : Machine ρ
  fault : Option Fault := none
  log : List LogRecord := []

namespace Machine

variable {ρ : Type}

/-- The value of a register. -/
def reg (m : Machine ρ) (x : Register) : UInt8 :=
  m.registers.get x

/-- Replace the value of a register. -/
def setReg (m : Machine ρ) (x : Register) (value : UInt8) : Machine ρ :=
  { m with registers := m.registers.set x value }

/-- Replace the value of a register, and then the flag. -/
def setFlagged (m : Machine ρ) (x : Register) (value : UInt8) (flag : Bool) : Machine ρ :=
  { m with registers := m.registers.setFlagged x value flag.toUInt8 }

/-- Pass over the next instruction if a condition holds. -/
def skipIf (m : Machine ρ) (condition : Bool) : Machine ρ :=
  if condition then { m with pc := m.pc + 2 } else m

/-- The address of the instruction that is being executed. -/
def current (m : Machine ρ) : UInt16 :=
  m.pc - 2

/-- Draw the sprite of `height` rows at the index. -/
def drawAt (m : Machine ρ) (x y : Register) (height : UInt8) : Machine ρ :=
  let sprite := m.memory.readBlock m.index.toNat height.toNat
  let drawn := m.screen.drawSprite ((m.reg x).toNat % 64) ((m.reg y).toNat % 32) sprite
  { m with screen := drawn.1, registers := m.registers.set Register.flag drawn.2.toUInt8 }

/-- Store the lowest pressed key, or go back to execute the same instruction again. -/
def awaitKey (m : Machine ρ) (x : Register) : Machine ρ :=
  match m.keypad.lowest? with
  | some key => m.setReg x (UInt8.ofNat key)
  | none => { m with pc := m.current }

/-- The hundreds, tens and units of a byte. -/
def decimalDigits (value : UInt8) : List UInt8 :=
  [value / 100, value / 10 % 10, value % 10]

/-- Carry out one instruction. -/
def execute [ByteSource ρ] (i : Instruction) (m : Machine ρ) : Outcome ρ :=
  match i with
  | .clear => { machine := { m with screen := .blank } }
  | .ret =>
    match m.stack.pop? with
    | some (address, rest) => { machine := { m with pc := address, stack := rest } }
    | none => { machine := m, fault := some (.stackUnderflow m.current), log := [.emptyReturn] }
  | .jump target => { machine := { m with pc := target } }
  | .call target =>
    match m.stack.push? m.pc with
    | some deeper => { machine := { m with pc := target, stack := deeper } }
    | none =>
      { machine := m, fault := some (.stackOverflow m.current), log := [.fullCall target] }
  | .skipIfConst x value => { machine := m.skipIf (m.reg x == value) }
  | .skipUnlessConst x value => { machine := m.skipIf (m.reg x != value) }
  | .skipIfSame x y => { machine := m.skipIf (m.reg x == m.reg y) }
  | .setConst x value => { machine := m.setReg x value }
  | .addConst x value =>
    { machine := m.setFlagged x (m.reg x + value) (255 < (m.reg x).toNat + value.toNat) }
  | .copy x y => { machine := m.setReg x (m.reg y) }
  | .or x y => { machine := m.setReg x (m.reg x ||| m.reg y) }
  | .and x y => { machine := m.setReg x (m.reg x &&& m.reg y) }
  | .xor x y => { machine := m.setReg x (m.reg x ^^^ m.reg y) }
  | .add x y =>
    { machine := m.setFlagged x (m.reg x + m.reg y) (255 < (m.reg x).toNat + (m.reg y).toNat) }
  | .sub x y => { machine := m.setFlagged x (m.reg x - m.reg y) (m.reg y < m.reg x) }
  | .shiftRight x => { machine := m.setFlagged x (m.reg x >>> 1) (m.reg x &&& 1 != 0) }
  | .subFrom x y => { machine := m.setFlagged x (m.reg y - m.reg x) (m.reg x < m.reg y) }
  | .shiftLeft x => { machine := m.setFlagged x (m.reg x <<< 1) (m.reg x >>> 7 != 0) }
  | .skipUnlessSame x y => { machine := m.skipIf (m.reg x != m.reg y) }
  | .setIndex address => { machine := { m with index := address } }
  | .jumpOffset base =>
    if (m.reg 0).toNat + base.toNat < 65536 then
      { machine := { m with pc := (m.reg 0).toUInt16 + base } }
    else { machine := m, fault := some (.addressOverflow m.current) }
  | .random x mask =>
    let drawn := ByteSource.next m.random
    { machine := { m.setReg x (drawn.1 &&& mask) with random := drawn.2 } }
  | .draw x y height => { machine := m.drawAt x y height }
  | .skipIfPressed x => { machine := m.skipIf (m.keypad.isPressed (m.reg x)) }
  | .skipUnlessPressed x => { machine := m.skipIf (!m.keypad.isPressed (m.reg x)) }
  | .readDelay x => { machine := m.setReg x m.delay }
  | .awaitKey x => { machine := m.awaitKey x }
  | .setDelay x => { machine := { m with delay := m.reg x } }
  | .setSound x => { machine := { m with sound := m.reg x } }
  | .addIndex x => { machine := { m with index := m.index + (m.reg x).toUInt16 } }
  | .pointGlyph x => { machine := { m with index := Memory.glyphAddress (m.reg x) } }
  | .storeDecimal x =>
    { machine :=
        { m with memory := m.memory.writeBlock m.index.toNat (decimalDigits (m.reg x)) } }
  | .dump x =>
    { machine :=
        { m with
          memory := m.memory.writeBlock m.index.toNat (m.registers.toList.take (x.val + 1)) } }
  | .load x =>
    { machine :=
        { m with
          registers := m.registers.load (m.memory.readBlock m.index.toNat (x.val + 1)) } }
  | .unknown word => { machine := m, log := [.skipped word] }

end Machine

end Chip8
