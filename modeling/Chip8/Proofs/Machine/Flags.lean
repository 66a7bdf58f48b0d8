import Chip8.Machine.Execute

/-!
# Arithmetic and the flag

Six instructions write a result to a register and then a flag to `VF`
(`Instruction.arithmeticWithFlag`).  The result keeps eight bits, and the flag says what is lost:
the carry of a sum, which of two numbers was greater, or the bit that is shifted out.  Both are
computed from the values that the registers had before, so the two operands and `VF` may coincide in
any way; only where the result goes to `VF` itself, the flag takes its place.

The main statement, `result_and_flag_exact`, gives the arithmetic equation between the old values
and the result with its flag.
-/

namespace Chip8

/-- The instructions that write a result to the register `x` and then the flag. -/
def Instruction.arithmeticWithFlag (x y : Register) (value : UInt8) : List Instruction :=
  [.addConst x value, .add x y, .sub x y, .subFrom x y, .shiftRight x, .shiftLeft x]

/-! ### Sums, differences and shifts of bytes -/

/-- A sum of bytes is its low byte and its carry. -/
theorem toNat_add_add_carry (a b : UInt8) :
    (a + b).toNat + 256 * (decide (255 < a.toNat + b.toNat)).toNat = a.toNat + b.toNat := by
  have left : a.toNat < 256 := a.toNat_lt
  have right : b.toNat < 256 := b.toNat_lt
  rw [UInt8.toNat_add]
  by_cases carry : 255 < a.toNat + b.toNat
  · rw [decide_eq_true carry, Bool.toNat_true]
    omega
  · rw [decide_eq_false carry, Bool.toNat_false]
    omega

/-- The carry of a sum of bytes is its quotient by 256. -/
theorem toNat_carry (a b : UInt8) :
    (decide (255 < a.toNat + b.toNat)).toNat = (a.toNat + b.toNat) / 256 := by
  have exact := toNat_add_add_carry a b
  have low : (a + b).toNat < 256 := (a + b).toNat_lt
  omega

/-- A difference of bytes wraps around modulo 256. -/
theorem toNat_sub_eq_emod (a b : UInt8) :
    ((a - b).toNat : Int) = ((a.toNat : Int) - b.toNat) % 256 := by
  have left : a.toNat < 256 := a.toNat_lt
  have right : b.toNat < 256 := b.toNat_lt
  rw [UInt8.toNat_sub]
  omega

/-- Whether a byte of value zero or one differs from zero is its value. -/
theorem toNat_bne_zero {a : UInt8} (bit : a.toNat ≤ 1) : (a != 0).toNat = a.toNat := by
  rcases (show a.toNat = 0 ∨ a.toNat = 1 by omega) with clear | set
  · obtain rfl : a = 0 := UInt8.toNat_inj.1 clear
    rfl
  · obtain rfl : a = 1 := UInt8.toNat_inj.1 set
    rfl

/-- The lowest bit of a byte is the remainder modulo two. -/
theorem toNat_and_one_bne_zero (a : UInt8) : (a &&& 1 != 0).toNat = a.toNat % 2 := by
  have bit : (a &&& 1).toNat = a.toNat % 2 := by
    rw [UInt8.toNat_and]
    exact Nat.and_two_pow_sub_one_eq_mod a.toNat 1
  rw [toNat_bne_zero (by omega), bit]

/-- The highest bit of a byte is the quotient by 128. -/
theorem toNat_shiftRight_seven_bne_zero (a : UInt8) : (a >>> 7 != 0).toNat = a.toNat / 128 := by
  have byte : a.toNat < 256 := a.toNat_lt
  have bit : (a >>> 7).toNat = a.toNat / 128 := by
    rw [UInt8.toNat_shiftRight, Nat.shiftRight_eq_div_pow]
    rfl
  rw [toNat_bne_zero (by omega), bit]

/-- A byte is twice its half and the bit shifted out. -/
theorem two_mul_toNat_shiftRight_add (a : UInt8) :
    2 * (a >>> 1).toNat + (a &&& 1 != 0).toNat = a.toNat := by
  have half : (a >>> 1).toNat = a.toNat / 2 := by
    rw [UInt8.toNat_shiftRight, Nat.shiftRight_eq_div_pow]
    rfl
  rw [half, toNat_and_one_bne_zero]
  omega

/-- Twice a byte is the byte shifted left and the bit shifted out. -/
theorem toNat_shiftLeft_add (a : UInt8) :
    (a <<< 1).toNat + 256 * (a >>> 7 != 0).toNat = 2 * a.toNat := by
  have byte : a.toNat < 256 := a.toNat_lt
  have double : (a <<< 1).toNat = a.toNat * 2 % 256 := by
    rw [UInt8.toNat_shiftLeft, Nat.shiftLeft_eq]
    rfl
  rw [double, toNat_shiftRight_seven_bne_zero]
  omega

theorem toNat_toUInt8 (b : Bool) : b.toUInt8.toNat = b.toNat := by
  cases b <;> rfl

namespace Machine

variable {ρ : Type}

/-! ### The registers after a result and its flag -/

/-- The flag holds the flag, the register of the result holds the result unless it is the flag, and
all others hold what they held. -/
theorem reg_setFlagged (m : Machine ρ) (x r : Register) (result : UInt8) (flag : Bool) :
    (m.setFlagged x result flag).reg r =
      if r = Register.flag then flag.toUInt8 else if r = x then result else m.reg r := by
  by_cases last : r = Register.flag
  · rw [if_pos last, last]
    exact RegisterFile.get_setFlagged_flag m.registers x result flag.toUInt8
  · rw [if_neg last]
    have other := RegisterFile.get_setFlagged_of_ne m.registers x r result flag.toUInt8 last
    simp only [eq_comm (a := x)] at other
    exact other

@[simp] theorem toNat_reg_setFlagged_flag (m : Machine ρ) (x : Register) (result : UInt8)
    (flag : Bool) : ((m.setFlagged x result flag).reg Register.flag).toNat = flag.toNat := by
  rw [reg_setFlagged, if_pos rfl, toNat_toUInt8]

theorem reg_setFlagged_self (m : Machine ρ) {x : Register} (hx : x ≠ Register.flag)
    (result : UInt8) (flag : Bool) : (m.setFlagged x result flag).reg x = result := by
  rw [reg_setFlagged, if_neg hx, if_pos rfl]

variable [ByteSource ρ]

/-- Each of the instructions with a flag writes some result and some flag. -/
theorem exists_execute_eq_setFlagged (m : Machine ρ) {x y : Register} {value : UInt8}
    {i : Instruction} (h : i ∈ Instruction.arithmeticWithFlag x y value) :
    ∃ result flag, m.execute i = { machine := m.setFlagged x result flag } := by
  simp only [Instruction.arithmeticWithFlag, List.mem_cons, List.not_mem_nil, or_false] at h
  rcases h with rfl | rfl | rfl | rfl | rfl | rfl
  · exact ⟨_, _, rfl⟩
  · exact ⟨_, _, rfl⟩
  · exact ⟨_, _, rfl⟩
  · exact ⟨_, _, rfl⟩
  · exact ⟨_, _, rfl⟩
  · exact ⟨_, _, rfl⟩

/-- The result of an instruction with a flag together with its flag is exact.  Unless the result
goes to the flag register, a sum is the result and 256 times the flag, a difference wraps around
modulo 256, and a register is shifted without loss; a difference taken the other way round is that
of the registers exchanged.  The flag is computed from the old values of the registers, also where
it takes the place of the result.  No instruction with a flag meets a fault; its flag is zero or
one, and no register changes but that of the result and the flag. -/
theorem result_and_flag_exact (m : Machine ρ) (x y : Register) (value : UInt8) :
    let old := fun r => (m.reg r).toNat
    let new := fun i r => ((m.execute i).machine.reg r).toNat
    (x ≠ Register.flag →
      new (.addConst x value) x + 256 * new (.addConst x value) Register.flag =
        old x + value.toNat ∧
      new (.add x y) x + 256 * new (.add x y) Register.flag = old x + old y ∧
      (new (.sub x y) x : Int) = ((old x : Int) - old y) % 256 ∧
      (new (.subFrom x y) x : Int) = ((old y : Int) - old x) % 256 ∧
      (y ≠ Register.flag →
        new (.subFrom x y) x = new (.sub y x) y ∧
        new (.subFrom x y) Register.flag = new (.sub y x) Register.flag) ∧
      2 * new (.shiftRight x) x + new (.shiftRight x) Register.flag = old x ∧
      new (.shiftLeft x) x + 256 * new (.shiftLeft x) Register.flag = 2 * old x) ∧
    new (.addConst x value) Register.flag = (old x + value.toNat) / 256 ∧
    new (.add x y) Register.flag = (old x + old y) / 256 ∧
    (new (.sub x y) Register.flag = 1 ↔ old y < old x) ∧
    (new (.subFrom x y) Register.flag = 1 ↔ old x < old y) ∧
    new (.shiftRight x) Register.flag = old x % 2 ∧
    new (.shiftLeft x) Register.flag = old x / 128 ∧
    ∀ i ∈ Instruction.arithmeticWithFlag x y value,
      (m.execute i).fault = none ∧ new i Register.flag ≤ 1 ∧
      ∀ r, r ≠ x → r ≠ Register.flag → (m.execute i).machine.reg r = m.reg r := by
  intro old new
  refine ⟨?_, ?_, ?_, ?_, ?_, ?_, ?_, ?_⟩
  · intro hx
    refine ⟨?_, ?_, ?_, ?_, ?_, ?_, ?_⟩
    · simp only [old, new, execute, reg_setFlagged_self m hx, toNat_reg_setFlagged_flag]
      exact toNat_add_add_carry _ _
    · simp only [old, new, execute, reg_setFlagged_self m hx, toNat_reg_setFlagged_flag]
      exact toNat_add_add_carry _ _
    · simp only [old, new, execute, reg_setFlagged_self m hx]
      exact toNat_sub_eq_emod _ _
    · simp only [old, new, execute, reg_setFlagged_self m hx]
      exact toNat_sub_eq_emod _ _
    · intro hy
      constructor
      · simp only [new, execute, reg_setFlagged_self m hx, reg_setFlagged_self m hy]
      · simp only [new, execute, toNat_reg_setFlagged_flag]
    · simp only [old, new, execute, reg_setFlagged_self m hx, toNat_reg_setFlagged_flag]
      exact two_mul_toNat_shiftRight_add _
    · simp only [old, new, execute, reg_setFlagged_self m hx, toNat_reg_setFlagged_flag]
      exact toNat_shiftLeft_add _
  · simp only [old, new, execute, toNat_reg_setFlagged_flag]
    exact toNat_carry _ _
  · simp only [old, new, execute, toNat_reg_setFlagged_flag]
    exact toNat_carry _ _
  · simp only [old, new, execute, toNat_reg_setFlagged_flag, Bool.toNat_eq_one,
      decide_eq_true_iff]
    exact UInt8.lt_iff_toNat_lt
  · simp only [old, new, execute, toNat_reg_setFlagged_flag, Bool.toNat_eq_one,
      decide_eq_true_iff]
    exact UInt8.lt_iff_toNat_lt
  · simp only [old, new, execute, toNat_reg_setFlagged_flag]
    exact toNat_and_one_bne_zero _
  · simp only [old, new, execute, toNat_reg_setFlagged_flag]
    exact toNat_shiftRight_seven_bne_zero _
  · intro i hi
    obtain ⟨result, flag, executed⟩ := m.exists_execute_eq_setFlagged hi
    refine ⟨by rw [executed], ?_, ?_⟩
    · simp only [new, executed, toNat_reg_setFlagged_flag]
      exact flag.toNat_le
    · intro r other last
      rw [executed, reg_setFlagged, if_neg last, if_neg other]

/-- With 200 in `V3`, 7 in `V5` and 100 in `VF`: adding `VF` to `V3` leaves 44 and a carry, and
subtracting `V3` from `V5` into either of them leaves 63 and no flag.  Adding 200 to `VF` itself
leaves the carry alone. -/
theorem result_and_flag_exact_of_aliases :
    let m : Machine CyclicSource :=
      { fresh [] (CyclicSource.ofPattern [7]) with
        registers := ((RegisterFile.zero.set 3 200).set 5 7).set Register.flag 100 }
    let new := fun i r => ((m.execute i).machine.reg r).toNat
    (3 : Register) ≠ Register.flag ∧ (5 : Register) ≠ Register.flag ∧
    new (.add 3 Register.flag) 3 + 256 * new (.add 3 Register.flag) Register.flag = 300 ∧
    (new (.subFrom 3 5) 3 = new (.sub 5 3) 5 ∧ (new (.subFrom 3 5) 3 : Int) = 63) ∧
    new (.addConst Register.flag 200) Register.flag = 1 ∧
    (m.execute (.addConst Register.flag 200)).machine.reg 3 = 200 := by
  intro m new
  have three : (3 : Register) ≠ Register.flag := by decide
  have five : (5 : Register) ≠ Register.flag := by decide
  obtain ⟨sums, -⟩ := result_and_flag_exact m 3 Register.flag 0
  obtain ⟨differences, -⟩ := result_and_flag_exact m 3 5 0
  obtain ⟨-, carry, -, -, -, -, -, others⟩ := result_and_flag_exact m Register.flag 0 200
  obtain ⟨-, -, -, wrapped, exchanged, -⟩ := differences three
  have kept := (others (.addConst Register.flag 200) List.mem_cons_self).2.2 3 three three
  exact ⟨three, five, (sums three).2.1, ⟨(exchanged five).1, wrapped⟩,
    carry.trans (by decide +kernel), kept⟩

end Machine

end Chip8
