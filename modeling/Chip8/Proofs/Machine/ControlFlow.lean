import Chip8.Proofs.Machine.Faults

/-!
# Where a cycle goes on

A cycle moves the program counter behind its instruction before it executes it.  A jump, a call and
a return then replace it; a skip whose condition holds moves it behind the next instruction as well;
waiting for a key without a pressed key moves it back; and everything else leaves it.  The program
counter wraps around at sixteen bits, wherever it stands.

`Machine.Skips` is the condition of a skip, read off the machine before the cycle.  Each skip has an
opposite, `Instruction.Opposes`, which skips exactly if the other does not.  The main statement is
`pc_cycle_exact`.
-/

namespace Chip8

namespace Instruction

/-- Whether an instruction replaces the program counter. -/
def jumps : Instruction → Bool
  | ret | jump _ | call _ | jumpOffset _ => true
  | _ => false

/-- Whether an instruction skips the next one on a condition. -/
def isSkip : Instruction → Bool
  | skipIfConst _ _ | skipUnlessConst _ _ | skipIfSame _ _ | skipUnlessSame _ _ => true
  | skipIfPressed _ | skipUnlessPressed _ => true
  | _ => false

/-- Whether two instructions skip on opposite conditions on the same operands. -/
inductive Opposes : Instruction → Instruction → Prop where
  | const (x : Register) (value : UInt8) : Opposes (skipIfConst x value) (skipUnlessConst x value)
  | same (x y : Register) : Opposes (skipIfSame x y) (skipUnlessSame x y)
  | pressed (x : Register) : Opposes (skipIfPressed x) (skipUnlessPressed x)

theorem isSkip_of_opposes {i j : Instruction} (h : i.Opposes j) : i.isSkip ∧ j.isSkip := by
  cases h <;> exact ⟨rfl, rfl⟩

end Instruction

/-- A byte names a pressed key exactly if it is the number of one. -/
theorem Keypad.isPressed_eq_true_iff {p : Keypad} {name : UInt8} :
    p.isPressed name = true ↔ ∃ k : Key, k.val = name.toNat ∧ p.get k = true := by
  rw [isPressed]
  split
  · next key named =>
    have number : name.toNat = key.val := Key.ofNat?_eq_some_iff.1 named
    constructor
    · intro down
      exact ⟨key, number.symm, down⟩
    · rintro ⟨k, same, down⟩
      rwa [Fin.ext (same.trans number)] at down
  · next unnamed =>
    constructor
    · intro down
      cases down
    · rintro ⟨k, same, -⟩
      rw [Key.ofNat?_eq_some_iff.2 same.symm] at unnamed
      cases unnamed

/-- What is popped is the highest slot in use. -/
theorem CallStack.getElem?_of_pop? {s t : CallStack} {address : UInt16}
    (h : s.pop? = some (address, t)) : 0 < s.depth ∧ s.slots[s.depth - 1]? = some address := by
  have bound := s.depth_le
  rw [pop?] at h
  split at h
  · next used =>
    obtain ⟨rfl, -⟩ := Prod.mk.inj (Option.some.inj h)
    exact ⟨used, Vector.getElem?_eq_getElem (by omega)⟩
  · cases h

namespace Machine

variable {ρ : Type}

/-- Whether an instruction is a skip whose condition holds.  The condition of a skip on a key is
that the register is the number of a pressed key. -/
def Skips (m : Machine ρ) : Instruction → Prop
  | .skipIfConst x value => m.reg x = value
  | .skipUnlessConst x value => m.reg x ≠ value
  | .skipIfSame x y => m.reg x = m.reg y
  | .skipUnlessSame x y => m.reg x ≠ m.reg y
  | .skipIfPressed x => ∃ k : Key, k.val = (m.reg x).toNat ∧ m.keypad.get k = true
  | .skipUnlessPressed x => ¬ ∃ k : Key, k.val = (m.reg x).toNat ∧ m.keypad.get k = true
  | _ => False

/-- Of two opposite skips exactly one has a condition that holds. -/
theorem skips_iff_not_of_opposes (m : Machine ρ) {i j : Instruction} (h : i.Opposes j) :
    m.Skips j ↔ ¬ m.Skips i := by
  cases h <;> exact Iff.rfl

theorem isSkip_of_skips {m : Machine ρ} {i : Instruction} (h : m.Skips i) : i.isSkip := by
  cases i <;> first | rfl | cases h

/-! ### The program counter after an instruction -/

variable [ByteSource ρ]

/-- A skip passes over the next instruction exactly if its condition holds. -/
theorem exists_execute_eq_skipIf (m : Machine ρ) {i : Instruction} (skip : i.isSkip) :
    ∃ condition, m.execute i = { machine := m.skipIf condition } ∧
      (condition = true ↔ m.Skips i) := by
  cases i with
  | skipIfConst x value => exact ⟨_, rfl, beq_iff_eq⟩
  | skipUnlessConst x value => exact ⟨_, rfl, bne_iff_ne⟩
  | skipIfSame x y => exact ⟨_, rfl, beq_iff_eq⟩
  | skipUnlessSame x y => exact ⟨_, rfl, bne_iff_ne⟩
  | skipIfPressed x => exact ⟨_, rfl, Keypad.isPressed_eq_true_iff⟩
  | skipUnlessPressed x =>
    refine ⟨_, rfl, ?_⟩
    rw [Bool.not_eq_true', ← Bool.not_eq_true]
    exact not_congr Keypad.isPressed_eq_true_iff
  | _ => cases skip

theorem pc_execute_of_skips {m : Machine ρ} {i : Instruction} (h : m.Skips i) :
    (m.execute i).machine.pc = m.pc + 2 := by
  obtain ⟨condition, executed, holds⟩ := m.exists_execute_eq_skipIf (isSkip_of_skips h)
  obtain rfl : condition = true := holds.2 h
  rw [executed]
  rfl

theorem pc_execute_of_not_skips {m : Machine ρ} {i : Instruction} (skip : i.isSkip)
    (h : ¬ m.Skips i) : (m.execute i).machine.pc = m.pc := by
  obtain ⟨condition, executed, holds⟩ := m.exists_execute_eq_skipIf skip
  obtain rfl : condition = false := Bool.eq_false_iff.2 (mt holds.1 h)
  rw [executed]
  rfl

/-- Of two opposite skips exactly one passes over the next instruction. -/
theorem pc_execute_of_opposes (m : Machine ρ) {i j : Instruction} (h : i.Opposes j) :
    ((m.execute i).machine.pc = m.pc + 2 ∧ (m.execute j).machine.pc = m.pc) ∨
      ((m.execute i).machine.pc = m.pc ∧ (m.execute j).machine.pc = m.pc + 2) := by
  have opposite : m.Skips j ↔ ¬ m.Skips i := m.skips_iff_not_of_opposes h
  have skips : i.isSkip ∧ j.isSkip := Instruction.isSkip_of_opposes h
  by_cases first : m.Skips i
  · exact Or.inl ⟨pc_execute_of_skips first,
      pc_execute_of_not_skips skips.2 fun second => opposite.1 second first⟩
  · exact Or.inr ⟨pc_execute_of_not_skips skips.1 first, pc_execute_of_skips (opposite.2 first)⟩

/-- An instruction that neither jumps nor skips, nor waits for a key in vain, leaves the program
counter. -/
theorem pc_execute_of_straight {m : Machine ρ} {i : Instruction} (straight : i.jumps = false)
    (h : ¬ m.Skips i) (served : ∀ x, i = .awaitKey x → ∃ k, m.keypad.get k = true) :
    (m.execute i).machine.pc = m.pc := by
  cases skip : i.isSkip with
  | true => exact pc_execute_of_not_skips skip h
  | false =>
    cases i with
    | awaitKey x =>
      obtain ⟨k, down⟩ := served x rfl
      simp only [execute, awaitKey]
      split
      · rfl
      · next none =>
        rw [Keypad.lowest?_eq_none_iff.1 none k] at down
        cases down
    | skipIfConst x value => cases skip
    | skipUnlessConst x value => cases skip
    | skipIfSame x y => cases skip
    | skipUnlessSame x y => cases skip
    | skipIfPressed x => cases skip
    | skipUnlessPressed x => cases skip
    | ret => cases straight
    | jump target => cases straight
    | call target => cases straight
    | jumpOffset base => cases straight
    | _ => rfl

/-- A return goes to the highest slot in use. -/
theorem pc_execute_ret {m : Machine ρ} (clean : (m.execute .ret).fault = none) :
    0 < m.stack.depth ∧
      m.stack.slots[m.stack.depth - 1]? = some (m.execute .ret).machine.pc := by
  simp only [execute] at clean ⊢
  cases popped : m.stack.pop? with
  | none =>
    rw [popped] at clean
    cases clean
  | some top => exact CallStack.getElem?_of_pop? popped

theorem pc_execute_call {m : Machine ρ} {target : UInt16}
    (clean : (m.execute (.call target)).fault = none) :
    (m.execute (.call target)).machine.pc = target := by
  simp only [execute] at clean ⊢
  cases pushed : m.stack.push? m.pc with
  | none =>
    rw [pushed] at clean
    cases clean
  | some deeper => rfl

/-- A jump with offset that meets no fault goes to a sum of at most sixteen bits. -/
theorem pc_execute_jumpOffset {m : Machine ρ} {base : UInt16}
    (fits : (m.reg 0).toNat + base.toNat < 65536) :
    (m.execute (.jumpOffset base)).machine.pc.toNat = (m.reg 0).toNat + base.toNat := by
  simp only [execute, if_pos fits]
  rw [UInt16.toNat_add, UInt8.toNat_toUInt16]
  exact Nat.mod_eq_of_lt fits

/-! ### The program counter after a cycle -/

omit [ByteSource ρ] in
@[simp] theorem skips_advance (m : Machine ρ) (i : Instruction) :
    m.advance.Skips i ↔ m.Skips i := by
  cases i <;> exact Iff.rfl

/-- A skip meets no fault. -/
theorem cycle_fault_of_isSkip {m : Machine ρ} (skip : m.fetch.isSkip) :
    m.cycle.fault = none := by
  obtain ⟨condition, executed, -⟩ := m.advance.exists_execute_eq_skipIf skip
  rw [cycle_fault, executed]

theorem pc_cycle_of_skips {m : Machine ρ} (h : m.Skips m.fetch) :
    m.cycle.machine.pc = m.pc + 4 := by
  have clean : (m.advance.execute m.fetch).fault = none := cycle_fault_of_isSkip (isSkip_of_skips h)
  rw [cycle_machine_of_fault_eq_none clean, pc_execute_of_skips ((m.skips_advance _).2 h)]
  exact UInt16.add_assoc m.pc 2 2

/-- A cycle at an instruction that neither jumps nor skips, nor waits for a key in vain, goes on at
the next instruction. -/
theorem pc_cycle_of_straight {m : Machine ρ} (clean : m.cycle.fault = none)
    (straight : m.fetch.jumps = false) (h : ¬ m.Skips m.fetch)
    (served : ∀ x, m.fetch = .awaitKey x → ∃ k, m.keypad.get k = true) :
    m.cycle.machine.pc = m.pc + 2 := by
  rw [cycle_machine_of_fault_eq_none clean]
  exact pc_execute_of_straight (m := m.advance) straight (mt (m.skips_advance _).1 h) served

theorem pc_cycle_of_not_skips {m : Machine ρ} (skip : m.fetch.isSkip) (h : ¬ m.Skips m.fetch) :
    m.cycle.machine.pc = m.pc + 2 := by
  refine pc_cycle_of_straight (cycle_fault_of_isSkip skip) ?_ h ?_
  · generalize m.fetch = i at skip
    cases i <;> first | rfl | cases skip
  · intro x fetched
    rw [fetched] at skip
    cases skip

/-- A cycle that waits for a key in vain changes nothing: the program counter is moved on and
back. -/
theorem cycle_of_released {m : Machine ρ} {x : Register} (fetched : m.fetch = .awaitKey x)
    (released : ∀ k, m.keypad.get k = false) :
    m.cycle = { machine := m, log := [.executing m.pc (.awaitKey x)] } := by
  have nothing : m.advance.keypad.lowest? = none := Keypad.lowest?_eq_none_iff.2 released
  have executed : m.advance.execute (.awaitKey x) = { machine := m } := by
    simp only [execute, awaitKey, nothing, current_advance, advance_with_pc]
  rw [cycle, fetched, executed]
  rfl

theorem pc_cycle_of_awaitKey {m : Machine ρ} {x : Register} (fetched : m.fetch = .awaitKey x)
    (released : ∀ k, m.keypad.get k = false) : m.cycle.machine.pc = m.pc := by
  rw [cycle_of_released fetched released]

/-- Cycles at opposite skips, on machines that differ in their memory only, go on at different
instructions. -/
theorem pc_cycle_of_opposes (m : Machine ρ) {first second : Memory} {i j : Instruction}
    (h : i.Opposes j) (fetched : { m with memory := first }.fetch = i)
    (fetched' : { m with memory := second }.fetch = j) :
    ({ m with memory := first }.cycle.machine.pc = m.pc + 4 ∧
      { m with memory := second }.cycle.machine.pc = m.pc + 2) ∨
    ({ m with memory := first }.cycle.machine.pc = m.pc + 2 ∧
      { m with memory := second }.cycle.machine.pc = m.pc + 4) := by
  have unread : ∀ (memory : Memory) (i : Instruction),
      { m with memory := memory }.Skips i ↔ m.Skips i := by
    intro memory i
    cases i <;> exact Iff.rfl
  have opposite : m.Skips j ↔ ¬ m.Skips i := m.skips_iff_not_of_opposes h
  have skips : i.isSkip ∧ j.isSkip := Instruction.isSkip_of_opposes h
  rw [← fetched, ← fetched'] at skips
  by_cases here : m.Skips i
  · refine Or.inl ⟨pc_cycle_of_skips ?_, pc_cycle_of_not_skips skips.2 ?_⟩
    · rw [fetched, unread]
      exact here
    · rw [fetched', unread]
      exact fun there => opposite.1 there here
  · refine Or.inr ⟨pc_cycle_of_not_skips skips.1 ?_, pc_cycle_of_skips ?_⟩
    · rw [fetched, unread]
      exact here
    · rw [fetched', unread]
      exact opposite.2 here

/-- A cycle without a fault goes on at the target of a jump or a call, at the sum of `V0` and the
base of a jump with offset, which has at most sixteen bits, at the highest slot in use after a
return, two instructions further after a skip whose condition holds, at the same instruction while
it waits for a key and none is pressed, and otherwise at the next instruction.  Of two opposite
skips with the same operands, executed on the same machine or fetched by cycles of machines that
differ in their memory only, exactly one passes over the next instruction; a register above fifteen
names no key, so that the skip unless a key is pressed does. -/
theorem pc_cycle_exact (m : Machine ρ) :
    (m.cycle.fault = none →
      let next := m.cycle.machine.pc
      (∀ target, m.fetch = .jump target ∨ m.fetch = .call target → next = target) ∧
      (∀ base, m.fetch = .jumpOffset base → next.toNat = (m.reg 0).toNat + base.toNat) ∧
      (m.fetch = .ret →
        0 < m.stack.depth ∧ m.stack.slots[m.stack.depth - 1]? = some next) ∧
      (m.Skips m.fetch → next = m.pc + 4) ∧
      (∀ x, m.fetch = .awaitKey x → (∀ k, m.keypad.get k = false) → next = m.pc) ∧
      (m.fetch.jumps = false → ¬ m.Skips m.fetch →
        (∀ x, m.fetch = .awaitKey x → ∃ k, m.keypad.get k = true) → next = m.pc + 2)) ∧
    ∀ i j : Instruction, i.Opposes j →
      (((m.execute i).machine.pc = m.pc + 2 ∧ (m.execute j).machine.pc = m.pc) ∨
        ((m.execute i).machine.pc = m.pc ∧ (m.execute j).machine.pc = m.pc + 2)) ∧
      (∀ first second : Memory,
        let n := { m with memory := first }
        let n' := { m with memory := second }
        n.fetch = i → n'.fetch = j →
        (n.cycle.machine.pc = m.pc + 4 ∧ n'.cycle.machine.pc = m.pc + 2) ∨
          (n.cycle.machine.pc = m.pc + 2 ∧ n'.cycle.machine.pc = m.pc + 4)) ∧
      ∀ x, i = .skipIfPressed x → 16 ≤ (m.reg x).toNat →
        (m.execute i).machine.pc = m.pc ∧ (m.execute j).machine.pc = m.pc + 2 := by
  refine ⟨?_, ?_⟩
  · intro clean next
    have executed : m.cycle.machine = (m.advance.execute m.fetch).machine :=
      cycle_machine_of_fault_eq_none clean
    rw [cycle_fault] at clean
    refine ⟨?_, ?_, ?_, pc_cycle_of_skips, fun x => pc_cycle_of_awaitKey,
      pc_cycle_of_straight clean⟩
    · rintro target (fetched | fetched)
      · show m.cycle.machine.pc = target
        rw [executed, fetched]
        rfl
      · rw [fetched] at clean executed
        show m.cycle.machine.pc = target
        rw [executed, pc_execute_call clean]
    · intro base fetched
      have fits : (m.reg 0).toNat + base.toNat < 65536 := offset_add_lt_of_fetch fetched
      show m.cycle.machine.pc.toNat = _
      rw [executed, fetched]
      exact pc_execute_jumpOffset (m := m.advance) fits
    · intro fetched
      rw [fetched] at clean executed
      show _ ∧ _ = some m.cycle.machine.pc
      rw [executed]
      exact pc_execute_ret clean
  · intro i j opposes
    refine ⟨m.pc_execute_of_opposes opposes,
      fun first second => m.pc_cycle_of_opposes opposes, ?_⟩
    rintro x rfl unnamed
    cases opposes with
    | pressed x =>
      have released : ¬ m.Skips (.skipIfPressed x) := by
        rintro ⟨k, number, -⟩
        have digit := k.isLt
        omega
      exact ⟨pc_execute_of_not_skips rfl released, pc_execute_of_skips released⟩

omit [ByteSource ρ] in
/-- At the highest even address the instruction lies in the last two cells of memory. -/
theorem fetch_of_last_cells {m : Machine ρ} {memory : Memory} {high low : UInt8}
    (last : m.pc = 0xFFFE) (stored : m.memory = (memory.write 4094 high).write 4095 low) :
    m.fetch = .ofBytes high low := by
  have first : m.memory.read 0xFFFE = high := by
    rw [stored, Memory.read_write, if_neg (by decide), Memory.read_write, if_pos (by decide)]
  have second : m.memory.read 0xFFFF = low := by
    rw [stored, Memory.read_write, if_pos (by decide)]
  have address : m.pc.toNat = 0xFFFE := congrArg UInt16.toNat last
  rw [fetch, address, first, second]

/-- A return at the last address of a word goes back to the pending call, and at the same place a
skip goes over the end of the address space; the key named by 16 is not pressed, although all keys
are. -/
theorem pc_cycle_exact_at_wrap :
    let m : Machine CyclicSource :=
      { fresh [] (CyclicSource.ofPattern [7]) with
        pc := 0xFFFE
        memory := (Memory.zero.write 4094 0x00).write 4095 0xEE
        stack := { slots := Vector.replicate 16 0x234, depth := 1 }
        registers := RegisterFile.zero.set 3 16
        keypad := .const true }
    let ifPressed := (Memory.zero.write 4094 0xE3).write 4095 0x9E
    let unlessPressed := (Memory.zero.write 4094 0xE3).write 4095 0xA1
    m.cycle.fault = none ∧ m.cycle.machine.pc = 0x234 ∧
    { m with memory := unlessPressed }.cycle.machine.pc = 2 ∧
    { m with memory := ifPressed }.cycle.machine.pc = 0 := by
  intro m ifPressed unlessPressed
  have returns : m.fetch = .ofBytes 0x00 0xEE := fetch_of_last_cells rfl rfl
  have clean : m.cycle.fault = none := by
    rw [cycle_fault, returns]
    rfl
  obtain ⟨goesOn, opposites⟩ := pc_cycle_exact m
  obtain ⟨-, -, ret, -⟩ := goesOn clean
  have address : some m.cycle.machine.pc = some 0x234 := (ret returns).2.symm
  have fetched : { m with memory := ifPressed }.fetch = .ofBytes 0xE3 0x9E :=
    fetch_of_last_cells rfl rfl
  have fetched' : { m with memory := unlessPressed }.fetch = .ofBytes 0xE3 0xA1 :=
    fetch_of_last_cells rfl rfl
  obtain ⟨-, cycles, -⟩ := opposites _ _ (.pressed 3)
  have skips : { m with memory := unlessPressed }.Skips (.skipUnlessPressed 3) := by
    rintro ⟨k, number, -⟩
    have digit : k.val < 16 := k.isLt
    have named : k.val = 16 := number
    omega
  have skipped : { m with memory := unlessPressed }.cycle.machine.pc = 2 := by
    obtain ⟨goesOn', -⟩ := pc_cycle_exact { m with memory := unlessPressed }
    obtain ⟨-, -, -, skip, -⟩ := goesOn' (by rw [cycle_fault, fetched']; rfl)
    exact (skip (by rwa [fetched'])).trans (show m.pc + 4 = 2 by decide)
  refine ⟨clean, Option.some.inj address, skipped, ?_⟩
  rcases cycles ifPressed unlessPressed fetched fetched' with ⟨-, kept⟩ | ⟨kept, -⟩
  · have two : (2 : UInt16) = m.pc + 2 := skipped.symm.trans kept
    exact absurd two (by decide)
  · exact kept.trans (show m.pc + 2 = 0 by decide)

end Machine

end Chip8
