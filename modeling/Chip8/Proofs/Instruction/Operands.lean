import Chip8.Instruction.Decode

/-!
# Operands of decoded instructions

A word has room for a register in a digit, for a constant in a byte, for an address in twelve bits
and for the height of a sprite in four.  An `Instruction` value may hold wider operands, since its
addresses have sixteen bits and its heights eight.

`Instruction.OperandsFit` says that the operands of an instruction have room in a word.  Every
decoded instruction has this property (`operandsFit_decode`), so an address that a program names
is below `0x1000`.
-/

namespace Chip8.Instruction

/-- Whether the address or the height among the operands has room in a word. -/
def OperandsFit : Instruction → Prop
  | jump target | call target => target.toNat < 4096
  | setIndex address => address.toNat < 4096
  | jumpOffset base => base.toNat < 4096
  | draw _ _ height => height.toNat < 16
  | _ => True

/-- The address field of a word is below `0x1000`. -/
theorem toNat_nnn_lt (w : Word) : w.nnn.toNat < 4096 := by
  rw [Word.toNat_nnn]
  exact Nat.mod_lt _ (by decide)

/-- The height field of a word is below sixteen. -/
theorem toNat_height_lt (w : Word) : (UInt8.ofNat w.n).toNat < 16 := by
  have digit : w.n.val < 16 := w.n.isLt
  rw [UInt8.toNat_ofNat']
  omega

theorem operandsFit_decodeSystem (w : Word) : (decodeSystem w).OperandsFit := by
  unfold decodeSystem
  split <;> trivial

theorem operandsFit_decodeArithmetic (w : Word) : (decodeArithmetic w).OperandsFit := by
  unfold decodeArithmetic
  split <;> trivial

theorem operandsFit_decodeKey (w : Word) : (decodeKey w).OperandsFit := by
  unfold decodeKey
  split <;> trivial

theorem operandsFit_decodeMisc (w : Word) : (decodeMisc w).OperandsFit := by
  unfold decodeMisc
  split <;> trivial

/-- A decoded instruction has operands that fit in a word. -/
theorem operandsFit_decode (w : Word) : (decode w).OperandsFit := by
  unfold decode
  split
  · exact operandsFit_decodeSystem w
  · exact toNat_nnn_lt w
  · exact toNat_nnn_lt w
  · trivial
  · trivial
  · trivial
  · trivial
  · trivial
  · exact operandsFit_decodeArithmetic w
  · trivial
  · exact toNat_nnn_lt w
  · exact toNat_nnn_lt w
  · trivial
  · exact toNat_height_lt w
  · exact operandsFit_decodeKey w
  · exact operandsFit_decodeMisc w

/-- A decoded jump with offset stays within sixteen bits, whatever byte is added to its address. -/
theorem offset_add_lt_of_decode {w : Word} {base : UInt16} (h : decode w = .jumpOffset base)
    (offset : UInt8) : offset.toNat + base.toNat < 65536 := by
  have fits : base.toNat < 4096 := by
    have operands := operandsFit_decode w
    rwa [h] at operands
  have byte : offset.toNat < 256 := offset.toNat_lt
  omega

end Chip8.Instruction
