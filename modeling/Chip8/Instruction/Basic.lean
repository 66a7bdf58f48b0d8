import Chip8.Instruction.Word
/-!
# Instructions

`Instruction` has one constructor for every operation of the machine, with its operands. Register
operands are below sixteen by their type; an address operand may be any sixteen-bit number,
although a word of a program holds only twelve bits of it. A word that stands for no operation is
kept as `Instruction.unknown`.
-/

namespace Chip8

/-- An operation of the machine together with its operands. -/
inductive Instruction where
  /-- Switch every pixel off. -/
  | clear
  /-- Go back to the address on top of the call stack. -/
  | ret
  /-- Continue at an address. -/
  | jump (target : UInt16)
  /-- Push the address of the next instruction, then continue at an address. -/
  | call (target : UInt16)
  /-- Skip the next instruction if a register holds a constant. -/
  | skipIfConst (x : Register) (value : UInt8)
  /-- Skip the next instruction unless a register holds a constant. -/
  | skipUnlessConst (x : Register) (value : UInt8)
  /-- Skip the next instruction if two registers hold the same value. -/
  | skipIfSame (x y : Register)
  /-- Store a constant in a register. -/
  | setConst (x : Register) (value : UInt8)
  /-- Add a constant to a register; the flag is the carry. -/
  | addConst (x : Register) (value : UInt8)
  /-- Copy the second register to the first. -/
  | copy (x y : Register)
  /-- Store the bitwise disjunction of two registers in the first. -/
  | or (x y : Register)
  /-- Store the bitwise conjunction of two registers in the first. -/
  | and (x y : Register)
  /-- Store the bitwise exclusive disjunction of two registers in the first. -/
  | xor (x y : Register)
  /-- Add the second register to the first; the flag is the carry. -/
  | add (x y : Register)
  /-- Subtract the second register from the first; the flag says that the first was greater. -/
  | sub (x y : Register)
  /-- Halve a register; the flag is the bit shifted out. -/
  | shiftRight (x : Register)
  /-- Store the second register minus the first in the first; the flag says that the second was
  greater. -/
  | subFrom (x y : Register)
  /-- Double a register; the flag is the bit shifted out. -/
  | shiftLeft (x : Register)
  /-- Skip the next instruction unless two registers hold the same value. -/
  | skipUnlessSame (x y : Register)
  /-- Store an address in the index. -/
  | setIndex (address : UInt16)
  /-- Continue at an address plus the value of `V0`. -/
  | jumpOffset (base : UInt16)
  /-- Store a random byte, masked by a constant, in a register. -/
  | random (x : Register) (mask : UInt8)
  /-- Draw the sprite at the index, `height` rows high, with its corner at the two registers; the
  flag says that a lit pixel was switched off. -/
  | draw (x y : Register) (height : UInt8)
  /-- Skip the next instruction if the key named by a register is pressed. -/
  | skipIfPressed (x : Register)
  /-- Skip the next instruction unless the key named by a register is pressed. -/
  | skipUnlessPressed (x : Register)
  /-- Store the delay timer in a register. -/
  | readDelay (x : Register)
  /-- Wait until a key is pressed and store its number in a register. -/
  | awaitKey (x : Register)
  /-- Store a register in the delay timer. -/
  | setDelay (x : Register)
  /-- Store a register in the sound timer. -/
  | setSound (x : Register)
  /-- Add a register to the index. -/
  | addIndex (x : Register)
  /-- Let the index point at the glyph of the digit in a register. -/
  | pointGlyph (x : Register)
  /-- Store the three decimal digits of a register at the index. -/
  | storeDecimal (x : Register)
  /-- Store the registers up to and including `x` at the index. -/
  | dump (x : Register)
  /-- Load the registers up to and including `x` from the index. -/
  | load (x : Register)
  /-- A word without a meaning, which is passed over. -/
  | unknown (word : Word)
deriving DecidableEq

end Chip8
