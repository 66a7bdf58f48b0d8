import Chip8.Proofs.Storage.Agreement

/-!
# What an instruction writes

A `Part` of a machine is a cell of memory, a register, a slot of the call stack or one of its other
components; two machines that agree at every part are equal (`Storage.eq_of_agreesAt`).
`Instruction.writes` is a table of the parts that an instruction may write.  Everything else is left
as it was: `execute_writes_nothing_else` is the main statement.

It holds for machines and for stored machines, whose screens may hold cells of any value.  The
checked operations of a stored machine are put together by `>>=`, and so are the parts that they
write: `Storage.WritesOnly` says of a computation that it completes and which parts it may write.
`writesOnly_put` is the rule for replacing what is in one part, and `WritesOnly.bind` the rule for
two computations in a row.
-/

namespace Chip8

/-- A part of a machine. -/
inductive Part where
  | cell (address : Fin 4096)
  | register (x : Register)
  | index
  | pc
  | slot (k : Nat)
  | depth
  | delay
  | sound
  | keypad
  | screen
  | random
deriving DecidableEq

/-- What a part holds, in a stored machine whose source of bytes is of type `ρ`. -/
abbrev Part.Value (ρ : Type) : Part → Type
  | cell _ | register _ | depth | delay | sound => UInt8
  | index | pc | slot _ => UInt16
  | keypad => Vector Bool 16
  | screen => Frame
  | random => ρ

/-- The parts that an instruction may write, when it is executed with a given index and a given
depth of the call stack. -/
def Instruction.writes (index : UInt16) (depth : Nat) : Instruction → List Part
  | clear => [.screen]
  | ret => [.pc, .depth]
  | jump _ | jumpOffset _ => [.pc]
  | call _ => [.pc, .slot depth, .depth]
  | skipIfConst _ _ | skipUnlessConst _ _ | skipIfSame _ _ | skipUnlessSame _ _ => [.pc]
  | skipIfPressed _ | skipUnlessPressed _ => [.pc]
  | setConst x _ | copy x _ | or x _ | and x _ | xor x _ | readDelay x => [.register x]
  | addConst x _ | add x _ | sub x _ | subFrom x _ | shiftRight x | shiftLeft x =>
    [.register x, .register Register.flag]
  | setIndex _ | addIndex _ | pointGlyph _ => [.index]
  | random x _ => [.register x, .random]
  | draw _ _ _ => [.screen, .register Register.flag]
  | awaitKey x => [.register x, .pc]
  | setDelay _ => [.delay]
  | setSound _ => [.sound]
  | storeDecimal _ => (List.range 3).map fun k => .cell (Memory.cell (index.toNat + k))
  | dump x => (List.range (x.val + 1)).map fun k => .cell (Memory.cell (index.toNat + k))
  | load x => ((List.finRange 16).filter fun y => y ≤ x).map .register
  | unknown _ => []

namespace Storage

variable {ρ : Type}

/-- Whether two stored machines hold the same in a part. -/
def AgreesAt (s t : Storage ρ) : Part → Prop
  | .cell address => t.memory[address] = s.memory[address]
  | .register x => t.registers[x] = s.registers[x]
  | .index => t.index = s.index
  | .pc => t.pc = s.pc
  | .slot k => t.slots[k]? = s.slots[k]?
  | .depth => t.depth = s.depth
  | .delay => t.delay = s.delay
  | .sound => t.sound = s.sound
  | .keypad => t.keypad = s.keypad
  | .screen => t.screen = s.screen
  | .random => t.random = s.random

/-- Replace what a stored machine holds in a part. -/
def put (s : Storage ρ) : (p : Part) → p.Value ρ → Storage ρ
  | .cell address, byte => { s with memory := s.memory.set address.val byte address.isLt }
  | .register x, value => { s with registers := s.registers.set x.val value x.isLt }
  | .index, address => { s with index := address }
  | .pc, address => { s with pc := address }
  | .slot k, address => { s with slots := if h : k < 16 then s.slots.set k address h else s.slots }
  | .depth, depth => { s with depth := depth }
  | .delay, value => { s with delay := value }
  | .sound, value => { s with sound := value }
  | .keypad, keys => { s with keypad := keys }
  | .screen, frame => { s with screen := frame }
  | .random, source => { s with random := source }

theorem AgreesAt.refl (s : Storage ρ) (p : Part) : s.AgreesAt s p := by
  cases p <;> rfl

theorem AgreesAt.trans {s t u : Storage ρ} {p : Part} (first : s.AgreesAt t p)
    (second : t.AgreesAt u p) : s.AgreesAt u p := by
  cases p <;> exact Eq.trans second first

/-- Two stored machines that agree at every part are equal. -/
theorem eq_of_agreesAt {s t : Storage ρ} (h : ∀ p, s.AgreesAt t p) : t = s := by
  have memory : t.memory = s.memory :=
    Vector.ext fun k hk => h (.cell ⟨k, hk⟩)
  have registers : t.registers = s.registers :=
    Vector.ext fun k hk => h (.register ⟨k, hk⟩)
  have slots : t.slots = s.slots := by
    apply Vector.ext
    intro k hk
    have slot : t.slots[k]? = s.slots[k]? := h (.slot k)
    rwa [Vector.getElem?_eq_getElem hk, Vector.getElem?_eq_getElem hk, Option.some.injEq] at slot
  cases s
  cases t
  simp only [Storage.mk.injEq]
  exact ⟨memory, registers, h .index, h .pc, slots, h .depth, h .delay, h .sound, h .keypad,
    h .screen, h .random⟩

/-- Whether a computation completes with a stored machine that agrees with `s` outside some
parts. -/
def WritesOnly (s : Storage ρ) (parts : List Part) (computed : Checked (Storage ρ)) : Prop :=
  ∃ t, computed = .ok t ∧ ∀ p ∉ parts, s.AgreesAt t p

/-- Two computations in a row write at most what the one or the other writes. -/
theorem WritesOnly.bind {s : Storage ρ} {parts others : List Part}
    {computed : Checked (Storage ρ)} {next : Storage ρ → Checked (Storage ρ)}
    (first : s.WritesOnly parts computed)
    (later : ∀ t : Storage ρ, t.WritesOnly others (next t)) :
    s.WritesOnly (parts ++ others) (computed >>= next) := by
  obtain ⟨t, rfl, agrees⟩ := first
  obtain ⟨u, completed, agrees'⟩ := later t
  refine ⟨u, completed, ?_⟩
  intro p hp
  rw [List.mem_append, not_or] at hp
  exact (agrees p hp.1).trans (agrees' p hp.2)

theorem WritesOnly.mono {s : Storage ρ} {parts more : List Part}
    {computed : Checked (Storage ρ)} (h : s.WritesOnly parts computed) (sub : parts ⊆ more) :
    s.WritesOnly more computed := by
  obtain ⟨t, completed, agrees⟩ := h
  exact ⟨t, completed, fun p hp => agrees p fun here => hp (sub here)⟩

/-! ### Single parts -/

/-- Replacing what is in a part leaves all other parts. -/
theorem agreesAt_put (s : Storage ρ) {p q : Part} (value : p.Value ρ) (other : q ≠ p) :
    s.AgreesAt (s.put p value) q := by
  cases p with
  | cell a =>
    cases q with
    | cell b =>
      have apart : a.val ≠ b.val := fun same => other (congrArg Part.cell (Fin.ext same.symm))
      exact Vector.getElem_set_ne a.isLt b.isLt apart
    | _ => rfl
  | register x =>
    cases q with
    | register y =>
      have apart : x.val ≠ y.val := fun same => other (congrArg Part.register (Fin.ext same.symm))
      exact Vector.getElem_set_ne x.isLt y.isLt apart
    | _ => rfl
  | slot k =>
    cases q with
    | slot j =>
      have apart : k ≠ j := fun same => other (congrArg Part.slot same.symm)
      simp only [AgreesAt, put]
      split
      · next room => exact Vector.getElem?_set_ne room apart
      · rfl
    | _ => rfl
  | _ =>
    -- two parts without a number are equal or not by their names
    cases q <;> first | rfl | exact absurd rfl other

theorem writesOnly_put (s : Storage ρ) (p : Part) (value : p.Value ρ) :
    s.WritesOnly [p] (.ok (s.put p value)) := by
  refine ⟨_, rfl, ?_⟩
  intro q hq
  exact s.agreesAt_put value fun same => hq (List.mem_singleton.2 same)

theorem writesOnly_setReg (s : Storage ρ) (x : Register) (value : UInt8) :
    s.WritesOnly [.register x] (s.setReg x value) := by
  rw [setReg_eq]
  exact s.writesOnly_put (.register x) value

theorem writesOnly_setFlagged (s : Storage ρ) (x : Register) (value : UInt8) (flag : Bool) :
    s.WritesOnly [.register x, .register Register.flag] (s.setFlagged x value flag) :=
  (s.writesOnly_setReg x value).bind fun t => t.writesOnly_setReg Register.flag flag.toUInt8

theorem writesOnly_skipIf (s : Storage ρ) (condition : Bool) :
    s.WritesOnly [.pc] (.ok (s.skipIf condition)) := by
  cases condition with
  | false => exact ⟨s, rfl, fun p _ => AgreesAt.refl s p⟩
  | true => exact s.writesOnly_put .pc (s.pc + 2)

theorem writesOnly_write (s : Storage ρ) (address : Nat) (byte : UInt8) :
    s.WritesOnly [.cell (Memory.cell address)] (s.write address byte) := by
  rw [write_eq]
  exact s.writesOnly_put (.cell (Memory.cell address)) byte

/-! ### Families of instructions -/

theorem writesOnly_test (s : Storage ρ) (x : Register) (condition : UInt8 → Bool) :
    s.WritesOnly [.pc] (s.test x condition) := by
  rw [test, reg_eq]
  exact s.writesOnly_skipIf _

theorem writesOnly_compare (s : Storage ρ) (x y : Register) (condition : UInt8 → UInt8 → Bool) :
    s.WritesOnly [.pc] (s.compare x y condition) := by
  rw [compare, reg_eq, reg_eq]
  exact s.writesOnly_skipIf _

theorem writesOnly_combine (s : Storage ρ) (x y : Register) (result : UInt8 → UInt8 → UInt8) :
    s.WritesOnly [.register x] (s.combine x y result) := by
  rw [combine, reg_eq, reg_eq]
  exact s.writesOnly_setReg x _

theorem writesOnly_combineFlagged (s : Storage ρ) (x y : Register)
    (result : UInt8 → UInt8 → UInt8) (flag : UInt8 → UInt8 → Bool) :
    s.WritesOnly [.register x, .register Register.flag] (s.combineFlagged x y result flag) := by
  rw [combineFlagged, reg_eq, reg_eq]
  exact s.writesOnly_setFlagged x _ _

theorem writesOnly_addByte (s : Storage ρ) (x : Register) (value : UInt8) :
    s.WritesOnly [.register x, .register Register.flag] (s.addByte x value) := by
  rw [addByte_eq]
  exact s.writesOnly_setFlagged x _ _

theorem writesOnly_awaitKey (s : Storage ρ) (x : Register) :
    s.WritesOnly [.register x, .pc] (s.awaitKey x) := by
  rw [awaitKey]
  split
  · exact (s.writesOnly_setReg x _).mono (List.cons_subset_cons _ (List.nil_subset _))
  · exact (s.writesOnly_put .pc _).mono (List.subset_cons_self _ _)

theorem writesOnly_pointGlyph (s : Storage ρ) (x : Register) :
    s.WritesOnly [.index] (s.pointGlyph x) := by
  rw [pointGlyph_eq]
  exact s.writesOnly_put .index _

/-! ### Blocks -/

/-- The parts that a block of `count` bytes occupies, from `k` bytes behind an address on. -/
def block (base k count : Nat) : List Part :=
  (List.range' k count).map fun j => .cell (Memory.cell (base + j))

theorem writesOnly_dumpFrom (s : Storage ρ) (index : UInt16) {k count : Nat}
    (fits : k + count ≤ 16) :
    s.WritesOnly (block index.toNat k count) (s.dumpFrom index.toNat k count) := by
  induction count generalizing s k with
  | zero => exact ⟨s, rfl, fun p _ => AgreesAt.refl s p⟩
  | succ count ih =>
    have rest : k + 1 + count ≤ 16 := by omega
    rw [dumpFrom_succ s index (show k < 16 by omega)]
    exact (s.writesOnly_write _ _).bind fun t => ih t rest

theorem writesOnly_loadFrom (s : Storage ρ) (index : UInt16) {k count : Nat}
    (fits : k + count ≤ 16) :
    s.WritesOnly (((List.finRange 16).filter fun y => y.val < k + count).map .register)
      (s.loadFrom index.toNat k count) := by
  induction count generalizing s k with
  | zero => exact ⟨s, rfl, fun p _ => AgreesAt.refl s p⟩
  | succ count ih =>
    have hk : k < 16 := by omega
    have rest : k + 1 + count ≤ 16 := by omega
    have shift : k + 1 + count = k + (count + 1) := by omega
    rw [loadFrom_succ s index hk]
    refine ((s.writesOnly_setReg ⟨k, hk⟩ _).bind fun t => ih t rest).mono ?_
    rw [shift]
    refine List.append_subset.2 ⟨?_, List.Subset.refl _⟩
    simp

/-! ### Drawing -/

theorem writesOnly_drawAt (s : Storage ρ) (x y : Register) (height : UInt8) :
    s.WritesOnly [.screen, .register Register.flag] (s.drawAt x y height) := by
  have byte : height.toNat < 256 := height.toNat_lt
  have rows : 0 + height.toNat < 256 := by omega
  obtain ⟨drawn, completed⟩ := s.exists_drawRows
    (Nat.mod_lt (s.registers.get x).toNat (show 0 < 64 by decide))
    (Nat.mod_lt (s.registers.get y).toNat (show 0 < 32 by decide)) rows (s.screen, false)
  simp only [drawAt, reg_eq, completed, bind, Except.bind]
  exact (s.writesOnly_put .screen drawn.1).bind fun t =>
    t.writesOnly_setReg Register.flag drawn.2.toUInt8

/-! ### One instruction -/

theorem WritesOnly.finish {s : Storage ρ} {parts : List Part} {computed : Checked (Storage ρ)}
    (h : s.WritesOnly parts computed) :
    s.WritesOnly parts ((Storage.finish computed).map Prod.fst) := by
  obtain ⟨t, rfl, agrees⟩ := h
  exact ⟨t, rfl, agrees⟩

theorem writesOnly_storeDecimal (s : Storage ρ) (x : Register) :
    s.WritesOnly (block s.index.toNat 0 3) (s.storeDecimal x) := by
  rw [storeDecimal_eq]
  exact (s.writesOnly_write _ _).bind fun t =>
    (t.writesOnly_write _ _).bind fun u => u.writesOnly_write _ _

/-- A return reads a slot that exists and writes the program counter and the depth. -/
theorem writesOnly_ret {s : Storage ρ} (shallow : s.depth.toNat ≤ 16) :
    s.WritesOnly [.pc, .depth] (s.ret.map Prod.fst) := by
  by_cases empty : s.depth = 0
  · rw [ret, if_pos empty]
    exact ⟨s, rfl, fun p _ => AgreesAt.refl s p⟩
  · have used : 0 < s.depth.toNat := Nat.pos_of_ne_zero fun zero => empty (UInt8.toNat_inj.1 zero)
    rw [ret_of_pos used shallow]
    exact (s.writesOnly_put .pc s.slots[s.depth.toNat - 1]).bind fun t =>
      t.writesOnly_put .depth (UInt8.ofNat (s.depth.toNat - 1))

/-- A call writes the program counter, the slot at the depth and the depth. -/
theorem writesOnly_call {s : Storage ρ} (shallow : s.depth.toNat ≤ 16) (target : UInt16) :
    s.WritesOnly [.pc, .slot s.depth.toNat, .depth] ((s.call target).map Prod.fst) := by
  by_cases full : s.depth.toNat = 16
  · rw [call, if_pos full]
    exact ⟨s, rfl, fun p _ => AgreesAt.refl s p⟩
  · have room : s.depth.toNat < 16 := Nat.lt_of_le_of_ne shallow full
    have slot := s.writesOnly_put (.slot s.depth.toNat) s.pc
    simp only [put, dif_pos room] at slot
    rw [call_of_lt room]
    refine WritesOnly.mono ?_ (List.Perm.subset (List.Perm.swap _ _ _))
    exact slot.bind fun t => (t.writesOnly_put .pc target).bind fun u => u.writesOnly_put .depth _

variable [ByteSource ρ]

/-- A jump with offset whose sum fits in a word writes the program counter. -/
theorem writesOnly_jumpOffset {s : Storage ρ} {base : UInt16} {v0 : UInt8}
    (held : s.reg 0 = .ok v0) (fits : v0.toNat + base.toNat < 65536) :
    s.WritesOnly [.pc] ((s.execute (.jumpOffset base)).map Prod.fst) := by
  rw [execute_jumpOffset_of_lt held fits]
  exact s.writesOnly_put .pc _

theorem writesOnly_execute {s : Storage ρ} (shallow : s.depth.toNat ≤ 16) {i : Instruction}
    (fits : ∀ base v0, i = .jumpOffset base → s.reg 0 = .ok v0 →
      v0.toNat + base.toNat < 65536) :
    s.WritesOnly (i.writes s.index s.depth.toNat) ((s.execute i).map Prod.fst) := by
  cases i with
  | clear => exact (s.writesOnly_put .screen _).finish
  | ret => exact writesOnly_ret shallow
  | jump target => exact (s.writesOnly_put .pc target).finish
  | call target => exact writesOnly_call shallow target
  | skipIfConst x value => exact (s.writesOnly_test x _).finish
  | skipUnlessConst x value => exact (s.writesOnly_test x _).finish
  | skipIfSame x y => exact (s.writesOnly_compare x y _).finish
  | setConst x value => exact (s.writesOnly_setReg x value).finish
  | addConst x value => exact (s.writesOnly_addByte x value).finish
  | copy x y => exact (s.writesOnly_combine x y _).finish
  | or x y => exact (s.writesOnly_combine x y _).finish
  | and x y => exact (s.writesOnly_combine x y _).finish
  | xor x y => exact (s.writesOnly_combine x y _).finish
  | add x y =>
    simp only [execute, reg_eq]
    exact (s.writesOnly_addByte x _).finish
  | sub x y => exact (s.writesOnly_combineFlagged x y _ _).finish
  | shiftRight x => exact (s.writesOnly_combineFlagged x x _ _).finish
  | subFrom x y => exact (s.writesOnly_combineFlagged x y _ _).finish
  | shiftLeft x => exact (s.writesOnly_combineFlagged x x _ _).finish
  | skipUnlessSame x y => exact (s.writesOnly_compare x y _).finish
  | setIndex address => exact (s.writesOnly_put .index address).finish
  | jumpOffset base =>
    have held := s.reg_eq 0
    exact writesOnly_jumpOffset held (fits base _ rfl held)
  | random x mask =>
    have drawn := (s.writesOnly_put .random (ByteSource.next s.random).2).bind fun t =>
      t.writesOnly_setReg x ((ByteSource.next s.random).1 &&& mask)
    exact (drawn.mono (List.Perm.swap _ _ _).subset).finish
  | draw x y height => exact (s.writesOnly_drawAt x y height).finish
  | skipIfPressed x => exact (s.writesOnly_test x _).finish
  | skipUnlessPressed x => exact (s.writesOnly_test x _).finish
  | readDelay x => exact (s.writesOnly_setReg x s.delay).finish
  | awaitKey x => exact (s.writesOnly_awaitKey x).finish
  | setDelay x =>
    simp only [execute, reg_eq]
    exact (s.writesOnly_put .delay _).finish
  | setSound x =>
    simp only [execute, reg_eq]
    exact (s.writesOnly_put .sound _).finish
  | addIndex x =>
    simp only [execute, reg_eq]
    exact (s.writesOnly_put .index _).finish
  | pointGlyph x => exact (s.writesOnly_pointGlyph x).finish
  | storeDecimal x => exact (s.writesOnly_storeDecimal x).finish
  | dump x =>
    have fits : 0 + (x.val + 1) ≤ 16 := by omega
    have dumped := (s.writesOnly_dumpFrom s.index fits).finish
    rwa [block, ← List.range_eq_range'] at dumped
  | load x =>
    have fits : 0 + (x.val + 1) ≤ 16 := by omega
    have below : ∀ y : Register, decide (y.val < 0 + (x.val + 1)) = decide (y ≤ x) := by
      intro y
      rw [decide_eq_decide, Fin.le_def]
      omega
    have loaded := (s.writesOnly_loadFrom s.index fits).finish
    simp only [below] at loaded
    exact loaded
  | unknown word => exact ⟨s, rfl, fun p _ => AgreesAt.refl s p⟩

/-- Execution traps exactly at a jump with offset beyond sixteen bits. -/
theorem execute_eq_error_iff {s : Storage ρ} (shallow : s.depth.toNat ≤ 16) {i : Instruction}
    {trap : Trap} :
    s.execute i = .error trap ↔
      trap = .overflow ∧ ∃ base v0, i = .jumpOffset base ∧ s.reg 0 = .ok v0 ∧
        65535 < v0.toNat + base.toNat := by
  constructor
  · intro trapped
    by_cases large : ∃ base v0, i = .jumpOffset base ∧ s.reg 0 = .ok v0 ∧
        65535 < v0.toNat + base.toNat
    · refine ⟨?_, large⟩
      obtain ⟨base, v0, rfl, held, beyond⟩ := large
      rw [execute_jumpOffset_of_overflow held beyond] at trapped
      exact (Except.error.inj trapped).symm
    · have fits : ∀ base v0, i = .jumpOffset base → s.reg 0 = .ok v0 →
          v0.toNat + base.toNat < 65536 := fun base v0 jump held =>
        Nat.not_le.1 fun beyond => large ⟨base, v0, jump, held, beyond⟩
      obtain ⟨t, completed, -⟩ := writesOnly_execute shallow fits
      rw [trapped] at completed
      cases completed
  · rintro ⟨rfl, base, v0, rfl, held, beyond⟩
    exact execute_jumpOffset_of_overflow held beyond

/-- An instruction that completes leaves what it does not write. -/
theorem agreesAt_of_execute {s t : Storage ρ} {i : Instruction} {fault : Option Fault}
    (shallow : s.depth.toNat ≤ 16) (completed : s.execute i = .ok (t, fault)) {p : Part}
    (kept : p ∉ i.writes s.index s.depth.toNat) : s.AgreesAt t p := by
  have fits : ∀ base v0, i = .jumpOffset base → s.reg 0 = .ok v0 →
      v0.toNat + base.toNat < 65536 := by
    intro base v0 jump held
    refine Nat.lt_of_not_le fun beyond => ?_
    rw [(execute_eq_error_iff shallow).2 ⟨rfl, base, v0, jump, held, beyond⟩] at completed
    cases completed
  obtain ⟨u, same, agrees⟩ := writesOnly_execute shallow fits
  rw [completed] at same
  cases same
  exact agrees p kept

end Storage

namespace Machine

variable {ρ : Type}

/-- Whether two machines hold the same in a part. -/
def AgreesAt (m n : Machine ρ) : Part → Prop
  | .cell address => n.memory.read address = m.memory.read address
  | .register x => n.reg x = m.reg x
  | .index => n.index = m.index
  | .pc => n.pc = m.pc
  | .slot k => n.stack.slots[k]? = m.stack.slots[k]?
  | .depth => n.stack.depth = m.stack.depth
  | .delay => n.delay = m.delay
  | .sound => n.sound = m.sound
  | .keypad => n.keypad = m.keypad
  | .screen => n.screen = m.screen
  | .random => n.random = m.random

/-- Machines whose stored forms agree at a part agree there. -/
theorem agreesAt_of_storage {m n : Machine ρ} {p : Part} (h : m.storage.AgreesAt n.storage p) :
    m.AgreesAt n p := by
  cases p with
  | cell address =>
    have place : Memory.cell address.val = address := Fin.ext (Nat.mod_eq_of_lt address.isLt)
    simp only [AgreesAt, Memory.read, place]
    exact h
  | depth =>
    have depths : n.storage.depth = m.storage.depth := h
    show n.stack.depth = m.stack.depth
    rw [← Storage.toNat_depth_storage, ← Storage.toNat_depth_storage, depths]
  | keypad =>
    have entries : n.keypad.entries = m.keypad.entries := h
    show n.keypad = m.keypad
    exact congrArg DigitTable.mk entries
  | screen =>
    have frames : n.screen.toFrame = m.screen.toFrame := h
    show n.screen = m.screen
    rw [← n.screen.ofFrame_toFrame, frames, m.screen.ofFrame_toFrame]
  | _ => exact h

/-- An instruction leaves what it does not write. -/
theorem agreesAt_execute [ByteSource ρ] (m : Machine ρ) {i : Instruction} {p : Part}
    (kept : p ∉ i.writes m.index m.stack.depth) : m.AgreesAt (m.execute i).machine p := by
  cases fault : (m.execute i).fault with
  | some f =>
    rw [machine_execute_of_fault fault]
    cases p <;> rfl
  | none =>
    have fits : ∀ base, i = .jumpOffset base → (m.reg 0).toNat + base.toNat < 65536 := by
      rintro base rfl
      refine Nat.lt_of_not_le fun beyond => ?_
      rw [execute_jumpOffset_fault_eq_some_iff.2 ⟨beyond, rfl⟩] at fault
      cases fault
    have depth : m.storage.depth.toNat = m.stack.depth := Storage.toNat_depth_storage m
    have completed := Storage.execute_storage m i fits
    refine agreesAt_of_storage (Storage.agreesAt_of_execute ?_ completed ?_)
    · rw [depth]
      exact m.stack.depth_le
    · rw [depth]
      exact kept

end Machine

/-- An instruction changes a machine at most in the parts that `Instruction.writes` lists, and a
word without a meaning changes nothing.  The same is true of a stored machine with a depth of at
most sixteen, whatever its screen holds: there an instruction completes, unless it is a jump with
offset beyond sixteen bits, and leaves all other parts. -/
theorem execute_writes_nothing_else {ρ : Type} [ByteSource ρ] (i : Instruction) :
    (∀ m : Machine ρ,
      (∀ p ∉ i.writes m.index m.stack.depth, m.AgreesAt (m.execute i).machine p) ∧
      ∀ word, i = .unknown word → (m.execute i).machine = m) ∧
    ∀ s : Storage ρ, s.depth.toNat ≤ 16 →
      (∀ trap, s.execute i = .error trap ↔
        trap = .overflow ∧ ∃ base v0, i = .jumpOffset base ∧ s.reg 0 = .ok v0 ∧
          65535 < v0.toNat + base.toNat) ∧
      ∀ t fault, s.execute i = .ok (t, fault) →
        (∀ p ∉ i.writes s.index s.depth.toNat, s.AgreesAt t p) ∧
        ∀ word, i = .unknown word → t = s := by
  refine ⟨?_, ?_⟩
  · intro m
    refine ⟨fun p kept => m.agreesAt_execute kept, ?_⟩
    rintro word rfl
    rfl
  · intro s shallow
    refine ⟨fun trap => Storage.execute_eq_error_iff shallow, ?_⟩
    intro t fault completed
    refine ⟨fun p kept => Storage.agreesAt_of_execute shallow completed kept, ?_⟩
    rintro word rfl
    exact Storage.eq_of_agreesAt fun p =>
      Storage.agreesAt_of_execute shallow completed List.not_mem_nil

/-- A dump of three registers at the end of memory runs over into its beginning and leaves the cell
behind the block, the index, the flag and the screen, also if the screen holds cells that are
neither lit nor dark and all slots of the call stack are in use. -/
theorem execute_writes_nothing_else_of_dump :
    let m : Machine CyclicSource :=
      { Machine.fresh [] (CyclicSource.ofPattern [7]) with index := 0xFFFF }
    let s : Storage CyclicSource :=
      { m.storage with depth := 16, screen := Vector.replicate 2048 5 }
    s.depth.toNat ≤ 16 ∧
    m.AgreesAt (m.execute (.dump 2)).machine (.cell 2) ∧
    ∃ t fault, s.execute (.dump 2) = .ok (t, fault) ∧ t.memory[2] = s.memory[2] ∧
      t.index = s.index ∧ t.registers[15] = s.registers[15] ∧ t.screen = s.screen := by
  intro m s
  have shallow : s.depth.toNat ≤ 16 := by decide
  obtain ⟨onMachine, onStorage⟩ := execute_writes_nothing_else (ρ := CyclicSource) (.dump 2)
  obtain ⟨traps, leaves⟩ := onStorage s shallow
  refine ⟨shallow, (onMachine m).1 (.cell 2) (by decide), ?_⟩
  cases completed : s.execute (.dump 2) with
  | error trap =>
    obtain ⟨-, base, v0, jump, -⟩ := (traps trap).1 completed
    cases jump
  | ok reply =>
    obtain ⟨agrees, -⟩ := leaves reply.1 reply.2 completed
    exact ⟨reply.1, reply.2, rfl, agrees (.cell 2) (by decide), agrees .index (by decide),
      agrees (.register 15) (by decide), agrees .screen (by decide)⟩

end Chip8
