import Chip8.Proofs.Storage.Agreement
import Mathlib.Data.Nat.ModEq

/-!
# Stored machines with congruent addresses

Addresses are held in sixteen bits, while memory has 4096 cells.  Two stored machines are related by
`Storage.Congruent` if they are equal except for the high bits of the program counter, of the index
and of the return addresses in use, and for the unused slots of the call stack.  Their screens are
equal cell by cell and may hold any values.

This file proves that one action keeps the relation: it completes on both machines, and fails on
both for the same reason or on neither (`Congruent.perform`).  `Checked.Related` says of two
computations that both complete with related results, and `Related.bind` is the rule for two steps
in a row; each operation has its lemma, and the instructions are put together from these.  The proof
needs that 4096 divides 65536, so that sums and differences in sixteen bits respect congruence
(`SameCell.add_right`, `SameCell.sub_right`), and that reads and writes of memory depend on
addresses modulo 4096 only.
-/

namespace Chip8

/-! ### Congruent addresses -/

/-- Two addresses name the same cell of memory. -/
def SameCell (a b : UInt16) : Prop :=
  a.toNat ≡ b.toNat [MOD 4096]

instance (a b : UInt16) : Decidable (SameCell a b) :=
  inferInstanceAs (Decidable (a.toNat % 4096 = b.toNat % 4096))

theorem SameCell.refl (a : UInt16) : SameCell a a := rfl

/-- Sixteen-bit sums respect congruence modulo 4096. -/
theorem SameCell.add_right {a b : UInt16} (h : SameCell a b) (c : UInt16) :
    SameCell (a + c) (b + c) := by
  unfold SameCell Nat.ModEq at h ⊢
  rw [UInt16.toNat_add, UInt16.toNat_add]
  omega

/-- Sixteen-bit differences respect congruence modulo 4096. -/
theorem SameCell.sub_right {a b : UInt16} (h : SameCell a b) (c : UInt16) :
    SameCell (a - c) (b - c) := by
  unfold SameCell Nat.ModEq at h ⊢
  rw [UInt16.toNat_sub, UInt16.toNat_sub]
  omega

namespace Memory

variable {m : Memory} {a b : Nat}

/-- Congruent addresses read the same byte. -/
theorem read_congr (h : a ≡ b [MOD 4096]) : m.read a = m.read b := by
  rw [← read_mod m a, ← read_mod m b, h]

/-- Congruent addresses write the same cell. -/
theorem write_congr (h : a ≡ b [MOD 4096]) (byte : UInt8) : m.write a byte = m.write b byte := by
  have cells : cell a = cell b := Fin.ext h
  rw [write, write]
  congr 2

end Memory

/-! ### Related computations -/

namespace Checked

variable {α β γ δ : Type} {R : α → β → Prop} {S : γ → δ → Prop}

/-- Whether two computations complete, with related results. -/
def Related (R : α → β → Prop) (computed : Checked α) (other : Checked β) : Prop :=
  ∃ a b, computed = .ok a ∧ other = .ok b ∧ R a b

theorem Related.ok {a : α} {b : β} (related : R a b) : Related R (.ok a) (.ok b) :=
  ⟨a, b, rfl, rfl, related⟩

/-- Related computations followed by related ones are related. -/
theorem Related.bind {computed : Checked α} {other : Checked β} (first : Related R computed other)
    {f : α → Checked γ} {g : β → Checked δ} (later : ∀ a b, R a b → Related S (f a) (g b)) :
    Related S (computed >>= f) (other >>= g) := by
  obtain ⟨a, b, rfl, rfl, related⟩ := first
  exact later a b related

end Checked

/-! ### Congruent stored machines -/

/-- Why an instruction cannot be carried out, without its address. -/
inductive FaultKind where
  | stackOverflow
  | stackUnderflow
  | addressOverflow
deriving DecidableEq

/-- The kind of a fault. -/
def Fault.kind : Fault → FaultKind
  | stackOverflow _ => .stackOverflow
  | stackUnderflow _ => .stackUnderflow
  | addressOverflow _ => .addressOverflow

namespace Storage

open Checked (Related)

variable {ρ : Type} {s t : Storage ρ}

/-- Two stored machines with the same depth, at most sixteen, that differ at most in the high bits
of their addresses and in the slots of the call stack that are not in use. -/
structure Congruent (s t : Storage ρ) : Prop where
  memory : s.memory = t.memory
  registers : s.registers = t.registers
  index : SameCell s.index t.index
  pc : SameCell s.pc t.pc
  depth : s.depth = t.depth
  depth_le : t.depth.toNat ≤ 16
  slots : ∀ k (h : k < 16), k < t.depth.toNat → SameCell s.slots[k] t.slots[k]
  delay : s.delay = t.delay
  sound : s.sound = t.sound
  keypad : s.keypad = t.keypad
  screen : s.screen = t.screen
  random : s.random = t.random

/-- Two replies with congruent stored machines and the same kind of fault, if any. -/
structure CongruentReplies (r r' : Reply ρ) : Prop where
  storage : r.1.Congruent r'.1
  fault : r.2.map Fault.kind = r'.2.map Fault.kind

/-- Related computations that meet no fault give congruent replies. -/
theorem related_finish {computed other : Checked (Storage ρ)}
    (h : Related Congruent computed other) :
    Related CongruentReplies (finish computed) (finish other) := by
  obtain ⟨a, b, rfl, rfl, congruent⟩ := h
  exact .ok ⟨congruent, rfl⟩

/-! ### Small operations -/

namespace Congruent

theorem setReg (h : s.Congruent t) (x : Register) (value : UInt8) :
    Related Congruent (s.setReg x value) (t.setReg x value) := by
  rw [setReg_eq, setReg_eq, h.registers]
  exact .ok { h with registers := rfl }

theorem setFlagged (h : s.Congruent t) (x : Register) (value : UInt8) (flag : Bool) :
    Related Congruent (s.setFlagged x value flag) (t.setFlagged x value flag) :=
  (h.setReg x value).bind fun _ _ h => h.setReg Register.flag flag.toUInt8

/-- Any common screen may be put in place. -/
theorem withScreen (h : s.Congruent t) (frame : Frame) :
    Congruent { s with screen := frame } { t with screen := frame } :=
  { h with screen := rfl }

theorem skipIf (h : s.Congruent t) (condition : Bool) :
    (s.skipIf condition).Congruent (t.skipIf condition) := by
  cases condition with
  | false => exact h
  | true => exact { h with pc := h.pc.add_right 2 }

/-- Congruent addresses read the same byte in congruent machines. -/
theorem read (h : s.Congruent t) {a b : Nat} (same : a ≡ b [MOD 4096]) :
    s.read a = t.read b := by
  rw [read_eq, read_eq, h.memory, Memory.read_congr same]

theorem write (h : s.Congruent t) {a b : Nat} (same : a ≡ b [MOD 4096]) (byte : UInt8) :
    Related Congruent (s.write a byte) (t.write b byte) := by
  rw [write_eq, write_eq, h.memory, Memory.write_congr same]
  exact .ok { h with memory := rfl }

theorem awaitKey (h : s.Congruent t) (x : Register) :
    Related Congruent (s.awaitKey x) (t.awaitKey x) := by
  rw [Storage.awaitKey, Storage.awaitKey, h.keypad]
  split
  · exact h.setReg x _
  · exact .ok { h with pc := h.pc.sub_right 2, keypad := rfl }

/-! ### Families of instructions -/

theorem test (h : s.Congruent t) (x : Register) (condition : UInt8 → Bool) :
    Related Congruent (s.test x condition) (t.test x condition) := by
  rw [Storage.test, Storage.test, reg_eq, reg_eq, h.registers]
  exact .ok (h.skipIf _)

theorem compare (h : s.Congruent t) (x y : Register) (condition : UInt8 → UInt8 → Bool) :
    Related Congruent (s.compare x y condition) (t.compare x y condition) := by
  simp only [Storage.compare, reg_eq, h.registers]
  exact .ok (h.skipIf _)

theorem combine (h : s.Congruent t) (x y : Register) (result : UInt8 → UInt8 → UInt8) :
    Related Congruent (s.combine x y result) (t.combine x y result) := by
  simp only [Storage.combine, reg_eq, h.registers]
  exact h.setReg x _

theorem combineFlagged (h : s.Congruent t) (x y : Register) (result : UInt8 → UInt8 → UInt8)
    (flag : UInt8 → UInt8 → Bool) :
    Related Congruent (s.combineFlagged x y result flag) (t.combineFlagged x y result flag) := by
  simp only [Storage.combineFlagged, reg_eq, h.registers]
  exact h.setFlagged x _ _

theorem addByte (h : s.Congruent t) (x : Register) (value : UInt8) :
    Related Congruent (s.addByte x value) (t.addByte x value) := by
  rw [addByte_eq, addByte_eq, h.registers]
  exact h.setFlagged x _ _

theorem pointGlyph (h : s.Congruent t) (x : Register) :
    Related Congruent (s.pointGlyph x) (t.pointGlyph x) := by
  rw [pointGlyph_eq, pointGlyph_eq, h.registers]
  exact .ok { h with registers := rfl, index := SameCell.refl _ }

/-! ### Blocks and sprites -/

theorem storeDecimal (h : s.Congruent t) (x : Register) :
    Related Congruent (s.storeDecimal x) (t.storeDecimal x) := by
  rw [storeDecimal_eq, storeDecimal_eq, h.registers]
  refine (h.write h.index _).bind fun _ _ hundreds => ?_
  refine (hundreds.write (Nat.ModEq.add_right 1 h.index) _).bind fun _ _ tens => ?_
  exact tens.write (Nat.ModEq.add_right 2 h.index) _

theorem dumpFrom (h : s.Congruent t) {index index' : UInt16} (same : SameCell index index')
    {k count : Nat} (fits : k + count ≤ 16) :
    Related Congruent (s.dumpFrom index.toNat k count) (t.dumpFrom index'.toNat k count) := by
  induction count generalizing s t k with
  | zero => exact .ok h
  | succ count ih =>
    have hk : k < 16 := by omega
    have rest : k + 1 + count ≤ 16 := by omega
    rw [dumpFrom_succ s index hk, dumpFrom_succ t index' hk, h.registers]
    exact (h.write (Nat.ModEq.add_right k same) _).bind fun _ _ written => ih written rest

theorem loadFrom (h : s.Congruent t) {index index' : UInt16} (same : SameCell index index')
    {k count : Nat} (fits : k + count ≤ 16) :
    Related Congruent (s.loadFrom index.toNat k count) (t.loadFrom index'.toNat k count) := by
  induction count generalizing s t k with
  | zero => exact .ok h
  | succ count ih =>
    have hk : k < 16 := by omega
    have rest : k + 1 + count ≤ 16 := by omega
    rw [loadFrom_succ s index hk, loadFrom_succ t index' hk, h.memory,
      Memory.read_congr (Nat.ModEq.add_right k same)]
    exact (h.setReg ⟨k, hk⟩ _).bind fun _ _ loaded => ih loaded rest

/-- The loop over the rows of a sprite reads the same bytes. -/
theorem drawRows (h : s.Congruent t) (x y : Nat) {k count : Nat} (rows : k + count < 256)
    (drawn : Frame × Bool) : s.drawRows x y k count drawn = t.drawRows x y k count drawn := by
  induction count generalizing k drawn with
  | zero => rfl
  | succ count ih =>
    have rest : k + 1 + count < 256 := by omega
    have near : k < 256 := by omega
    simp only [Storage.drawRows, Checked.add_word _ near, ih rest, bind, Except.bind,
      h.read (Nat.ModEq.add_right k h.index)]

theorem drawAt (h : s.Congruent t) (x y : Register) (height : UInt8) :
    Related Congruent (s.drawAt x y height) (t.drawAt x y height) := by
  have byte : height.toNat < 256 := height.toNat_lt
  have rows : 0 + height.toNat < 256 := by omega
  obtain ⟨drawn, completed⟩ := t.exists_drawRows
    (Nat.mod_lt (t.registers.get x).toNat (show 0 < 64 by decide))
    (Nat.mod_lt (t.registers.get y).toNat (show 0 < 32 by decide)) rows (t.screen, false)
  have painted : Congruent { s with registers := t.registers, screen := drawn.1 }
      { t with screen := drawn.1 } := { h with registers := rfl, screen := rfl }
  simp only [Storage.drawAt, reg_eq, h.registers, h.screen, h.drawRows _ _ rows, completed, bind,
    Except.bind]
  exact painted.setReg Register.flag _

/-! ### The call stack -/

/-- A return fails on both machines or goes to congruent addresses. -/
theorem ret (h : s.Congruent t) : Related CongruentReplies s.ret t.ret := by
  by_cases empty : t.depth = 0
  · rw [Storage.ret, Storage.ret, if_pos (h.depth.trans empty), if_pos empty]
    exact .ok ⟨h, rfl⟩
  · have used : 0 < t.depth.toNat := Nat.pos_of_ne_zero fun zero => empty (UInt8.toNat_inj.1 zero)
    have bound : t.depth.toNat ≤ 16 := h.depth_le
    have top : t.depth.toNat - 1 < 16 := by omega
    have less : (UInt8.ofNat (t.depth.toNat - 1)).toNat = t.depth.toNat - 1 := by
      rw [UInt8.toNat_ofNat']
      omega
    have popped : Congruent
        { s with
          pc := s.slots[t.depth.toNat - 1]
          depth := UInt8.ofNat (t.depth.toNat - 1) }
        { t with
          pc := t.slots[t.depth.toNat - 1]
          depth := UInt8.ofNat (t.depth.toNat - 1) } :=
      { h with
        pc := h.slots _ top (by omega)
        depth := rfl
        depth_le := by simp only [less]; omega
        slots := fun k hk below => h.slots k hk (by simp only [less] at below; omega) }
    rw [ret_of_pos (h.depth ▸ used) (h.depth ▸ bound), ret_of_pos used bound]
    simp only [h.depth]
    exact .ok ⟨popped, rfl⟩

/-- A call fails on both machines or pushes congruent addresses. -/
theorem call (h : s.Congruent t) (target : UInt16) :
    Related CongruentReplies (s.call target) (t.call target) := by
  by_cases full : t.depth.toNat = 16
  · rw [Storage.call, Storage.call, if_pos (h.depth ▸ full), if_pos full]
    exact .ok ⟨h, rfl⟩
  · have room : t.depth.toNat < 16 := Nat.lt_of_le_of_ne h.depth_le full
    have more : (UInt8.ofNat (t.depth.toNat + 1)).toNat = t.depth.toNat + 1 := by
      rw [UInt8.toNat_ofNat']
      omega
    have pushed : Congruent
        { s with
          pc := target
          slots := s.slots.set t.depth.toNat s.pc
          depth := UInt8.ofNat (t.depth.toNat + 1) }
        { t with
          pc := target
          slots := t.slots.set t.depth.toNat t.pc
          depth := UInt8.ofNat (t.depth.toNat + 1) } := by
      refine { h with pc := SameCell.refl target, depth := rfl, depth_le := ?_, slots := ?_ }
      · simp only [more]
        omega
      · intro k hk below
        simp only [more] at below
        simp only [Vector.getElem_set]
        split
        · exact h.pc
        · exact h.slots k hk (by omega)
    rw [call_of_lt (h.depth ▸ room), call_of_lt room]
    simp only [h.depth]
    exact .ok ⟨pushed, rfl⟩

/-! ### Timers -/

theorem ticks (h : s.Congruent t) (count : Nat) :
    Related Congruent (s.ticks count) (t.ticks count) := by
  induction count with
  | zero => exact .ok h
  | succ count ih =>
    rw [Storage.ticks, Storage.ticks]
    refine ih.bind fun a b congruent => ?_
    simp only [countDown_eq_ok, congruent.delay, congruent.sound, bind, Except.bind]
    exact .ok { congruent with delay := rfl, sound := rfl }

/-! ### One instruction -/

variable [ByteSource ρ]

theorem execute_jumpOffset (h : s.Congruent t) {base : UInt16}
    (fits : (t.registers.get 0).toNat + base.toNat < 65536) :
    Related CongruentReplies (s.execute (.jumpOffset base)) (t.execute (.jumpOffset base)) := by
  have held : s.reg 0 = .ok (t.registers.get 0) := by rw [reg_eq, h.registers]
  rw [execute_jumpOffset_of_lt held fits, execute_jumpOffset_of_lt (t.reg_eq 0) fits]
  exact .ok ⟨{ h with pc := SameCell.refl _ }, rfl⟩

/-- An instruction that does not trap completes on congruent machines with congruent replies. -/
theorem execute (h : s.Congruent t) (i : Instruction)
    (fits : ∀ base, i = .jumpOffset base → (t.registers.get 0).toNat + base.toNat < 65536) :
    Related CongruentReplies (s.execute i) (t.execute i) := by
  cases i with
  | clear => exact related_finish (.ok (h.withScreen _))
  | ret => exact h.ret
  | jump target => exact related_finish (.ok { h with pc := SameCell.refl target })
  | call target => exact h.call target
  | skipIfConst x value => exact related_finish (h.test x _)
  | skipUnlessConst x value => exact related_finish (h.test x _)
  | skipIfSame x y => exact related_finish (h.compare x y _)
  | setConst x value => exact related_finish (h.setReg x value)
  | addConst x value => exact related_finish (h.addByte x value)
  | copy x y => exact related_finish (h.combine x y _)
  | or x y => exact related_finish (h.combine x y _)
  | and x y => exact related_finish (h.combine x y _)
  | xor x y => exact related_finish (h.combine x y _)
  | add x y =>
    simp only [Storage.execute, reg_eq, h.registers]
    exact related_finish (h.addByte x _)
  | sub x y => exact related_finish (h.combineFlagged x y _ _)
  | shiftRight x => exact related_finish (h.combineFlagged x x _ _)
  | subFrom x y => exact related_finish (h.combineFlagged x y _ _)
  | shiftLeft x => exact related_finish (h.combineFlagged x x _ _)
  | skipUnlessSame x y => exact related_finish (h.compare x y _)
  | setIndex address => exact related_finish (.ok { h with index := SameCell.refl address })
  | jumpOffset base => exact h.execute_jumpOffset (fits base rfl)
  | random x mask =>
    have drawn : Congruent { s with random := (ByteSource.next t.random).2 }
        { t with random := (ByteSource.next t.random).2 } := { h with random := rfl }
    simp only [Storage.execute, h.random]
    exact related_finish (drawn.setReg x _)
  | draw x y height => exact related_finish (h.drawAt x y height)
  | skipIfPressed x =>
    simp only [Storage.execute, isPressed, h.keypad]
    exact related_finish (h.test x _)
  | skipUnlessPressed x =>
    simp only [Storage.execute, isPressed, h.keypad]
    exact related_finish (h.test x _)
  | readDelay x =>
    simp only [Storage.execute, h.delay]
    exact related_finish (h.setReg x _)
  | awaitKey x => exact related_finish (h.awaitKey x)
  | setDelay x =>
    simp only [Storage.execute, reg_eq, h.registers]
    exact related_finish (.ok { h with registers := rfl, delay := rfl })
  | setSound x =>
    simp only [Storage.execute, reg_eq, h.registers]
    exact related_finish (.ok { h with registers := rfl, sound := rfl })
  | addIndex x =>
    simp only [Storage.execute, reg_eq, h.registers]
    exact related_finish (.ok { h with registers := rfl, index := h.index.add_right _ })
  | pointGlyph x => exact related_finish (h.pointGlyph x)
  | storeDecimal x => exact related_finish (h.storeDecimal x)
  | dump x =>
    have inside : 0 + (x.val + 1) ≤ 16 := by omega
    exact related_finish (h.dumpFrom h.index inside)
  | load x =>
    have inside : 0 + (x.val + 1) ≤ 16 := by omega
    exact related_finish (h.loadFrom h.index inside)
  | unknown word => exact .ok ⟨h, rfl⟩

/-! ### One action -/

/-- A cycle completes on congruent machines, fetching the same instruction. -/
theorem cycle (h : s.Congruent t) : Related CongruentReplies s.cycle t.cycle := by
  let i : Instruction := .ofBytes (Memory.read ⟨t.memory⟩ t.pc.toNat)
    (Memory.read ⟨t.memory⟩ (t.pc.toNat + 1))
  have fits : ∀ base, i = .jumpOffset base → (t.registers.get 0).toNat + base.toNat < 65536 :=
    fun base fetched => Instruction.offset_add_lt_of_decode fetched (t.registers.get 0)
  have advanced : Congruent { s with pc := s.pc + 2 } { t with pc := t.pc + 2 } :=
    { h with pc := h.pc.add_right 2 }
  obtain ⟨r, r', left, right, replies⟩ := advanced.execute i fits
  have next : 1 < 256 := by decide
  simp only [Storage.cycle, Checked.add_word _ next, h.read h.pc,
    h.read (Nat.ModEq.add_right 1 h.pc), read_eq, bind, Except.bind]
  rw [left, right]
  have failed : r.2.isSome = r'.2.isSome := by
    simpa using congrArg Option.isSome replies.fault
  refine .ok ?_
  -- the program counter is put back in both machines or in neither
  rw [failed]
  split
  · exact ⟨{ replies.storage with pc := h.pc }, replies.fault⟩
  · exact replies

/-- An action that does not trap completes on congruent machines with congruent replies. -/
theorem perform (h : s.Congruent t) (a : Action)
    (fits : ∀ base, a = .execute (.jumpOffset base) →
      (t.registers.get 0).toNat + base.toNat < 65536) :
    Related CongruentReplies (s.perform a) (t.perform a) := by
  cases a with
  | cycle => exact h.cycle
  | execute i => exact h.execute i fun base jump => fits base (congrArg _ jump)
  | ticks count => exact related_finish (h.ticks count)
  | setKeypad keys => exact related_finish (.ok { h with keypad := rfl })
  | setKey k down =>
    simp only [Storage.perform, Checked.set_of_lt _ k.isLt, h.keypad, bind, Except.bind]
    exact related_finish (.ok { h with keypad := rfl })
  | setDelay value => exact related_finish (.ok { h with delay := rfl })
  | setSound value => exact related_finish (.ok { h with sound := rfl })

/-- Runs of ordinary actions complete on congruent machines with congruent replies. -/
theorem history (h : s.Congruent t) {actions : List Action}
    (ordinary : ∀ a ∈ actions, a.ordinary) :
    Related (List.Forall₂ CongruentReplies) (s.history actions) (t.history actions) := by
  induction actions generalizing s t with
  | nil => exact .ok List.Forall₂.nil
  | cons a rest ih =>
    have fits : ∀ base, a = .execute (.jumpOffset base) →
        (t.registers.get 0).toNat + base.toNat < 65536 := by
      rintro base rfl
      cases ordinary _ List.mem_cons_self
    have later : ∀ b ∈ rest, b.ordinary := fun b hb => ordinary b (List.mem_cons_of_mem a hb)
    refine (h.perform a fits).bind fun _ _ first => ?_
    exact (ih first.storage later).bind fun _ _ replies => .ok (List.Forall₂.cons first replies)

end Congruent

end Storage

end Chip8
