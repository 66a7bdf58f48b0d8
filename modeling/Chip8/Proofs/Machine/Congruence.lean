import Chip8.Proofs.Storage.Congruence

/-!
# Addresses modulo the size of memory

Addresses are held in sixteen bits, while memory has 4096 cells.  This file proves that the four
highest bits of an address never matter: `Machine.Congruent` relates two machines that are equal
except for the high bits of the program counter, of the index and of the return addresses in use,
and for the unused slots of the call stack.  One action leads from related machines to related
machines, and fails in both for the same reason or in neither, so whole runs stay related:
`congruent_history`.

Two machines are related exactly if their stored forms are (`congruent_iff_storage`), so the step
is read off that of stored machines (`Storage.Congruent.perform`).  Only a jump with offset that is
given from outside needs a separate argument, since checked execution may trap there.  Runs of
stored machines are the second half of `congruent_history`: their screens need not show pixels.
-/

namespace Chip8

/-- Two call stacks with the same number of slots in use, holding congruent addresses. -/
structure CallStack.Congruent (s t : CallStack) : Prop where
  depth : s.depth = t.depth
  slots : ∀ i : Fin 16, i.val < s.depth → SameCell s.slots[i] t.slots[i]

/-- Two machines that differ at most in the high bits of their addresses and in the slots of the
call stack that are not in use. -/
structure Machine.Congruent {ρ : Type} (m n : Machine ρ) : Prop where
  memory : m.memory = n.memory
  registers : m.registers = n.registers
  index : SameCell m.index n.index
  pc : SameCell m.pc n.pc
  stack : m.stack.Congruent n.stack
  delay : m.delay = n.delay
  sound : m.sound = n.sound
  keypad : m.keypad = n.keypad
  screen : m.screen = n.screen
  random : m.random = n.random

/-- Two outcomes with congruent machines and the same kind of fault, if any. -/
structure Outcome.Congruent {ρ : Type} (o p : Outcome ρ) : Prop where
  machine : o.machine.Congruent p.machine
  fault : o.fault.map Fault.kind = p.fault.map Fault.kind

namespace Machine

variable {ρ : Type} {m n : Machine ρ}

/-! ### Stored forms -/

theorem Congruent.storage (h : m.Congruent n) : m.storage.Congruent n.storage where
  memory := congrArg Memory.cells h.memory
  registers := congrArg DigitTable.entries h.registers
  index := h.index
  pc := h.pc
  depth := congrArg UInt8.ofNat h.stack.depth
  depth_le := by
    rw [Storage.toNat_depth_storage]
    exact n.stack.depth_le
  slots := by
    intro k hk used
    rw [Storage.toNat_depth_storage, ← h.stack.depth] at used
    exact h.stack.slots ⟨k, hk⟩ used
  delay := h.delay
  sound := h.sound
  keypad := congrArg DigitTable.entries h.keypad
  screen := congrArg Screen.toFrame h.screen
  random := h.random

/-- Two machines are congruent exactly if their stored forms are. -/
theorem congruent_iff_storage : m.Congruent n ↔ m.storage.Congruent n.storage := by
  refine ⟨Congruent.storage, fun h => ?_⟩
  have depth : m.stack.depth = n.stack.depth := by
    rw [← Storage.toNat_depth_storage, ← Storage.toNat_depth_storage, h.depth]
  have screen : m.screen = n.screen := by
    have frames : m.screen.toFrame = n.screen.toFrame := h.screen
    rw [← m.screen.ofFrame_toFrame, frames, n.screen.ofFrame_toFrame]
  have slots : ∀ i : Fin 16, i.val < m.stack.depth →
      SameCell m.stack.slots[i] n.stack.slots[i] := by
    intro i used
    rw [depth, ← Storage.toNat_depth_storage] at used
    exact h.slots i.val i.isLt used
  exact
    { memory := congrArg Memory.mk h.memory
      registers := congrArg DigitTable.mk h.registers
      index := h.index
      pc := h.pc
      stack := ⟨depth, slots⟩
      delay := h.delay
      sound := h.sound
      keypad := congrArg DigitTable.mk h.keypad
      screen := screen
      random := h.random }

/-! ### Runs -/

variable [ByteSource ρ]

/-- A jump with offset beyond sixteen bits fails on congruent machines and leaves them. -/
theorem Congruent.execute_jumpOffset_of_overflow (h : m.Congruent n) {base : UInt16}
    (beyond : 65536 ≤ (n.reg 0).toNat + base.toNat) :
    (m.execute (.jumpOffset base)).Congruent (n.execute (.jumpOffset base)) := by
  have v0 : m.reg 0 = n.reg 0 := congrArg (DigitTable.get · 0) h.registers
  simp only [execute, v0, if_neg (Nat.not_lt.2 beyond)]
  exact ⟨h, rfl⟩

/-- Every action has congruent outcomes on congruent machines. -/
theorem Congruent.perform (h : m.Congruent n) (a : Action) :
    (m.perform a).Congruent (n.perform a) := by
  by_cases large : ∃ base, a = .execute (.jumpOffset base) ∧
      65536 ≤ (n.reg 0).toNat + base.toNat
  · obtain ⟨base, rfl, beyond⟩ := large
    exact h.execute_jumpOffset_of_overflow beyond
  · have fits : ∀ base, a = .execute (.jumpOffset base) →
        (n.reg 0).toNat + base.toNat < 65536 := fun base jump =>
      Nat.not_le.1 fun beyond => large ⟨base, jump, beyond⟩
    have v0 : m.reg 0 = n.reg 0 := congrArg (DigitTable.get · 0) h.registers
    have left : m.storage.perform a = .ok (m.perform a).stored :=
      Storage.perform_storage m a (by rw [v0]; exact fits)
    have right : n.storage.perform a = .ok (n.perform a).stored :=
      Storage.perform_storage n a fits
    obtain ⟨r, r', completed, completed', replies⟩ := h.storage.perform a fits
    rw [left] at completed
    rw [right] at completed'
    cases completed
    cases completed'
    exact ⟨congruent_iff_storage.2 replies.storage, replies.fault⟩

/-- Runs of congruent machines are congruent action by action: each action succeeds in both or
fails in both for the same reason, and leaves congruent machines.  The same is true of runs of
ordinary actions on congruent stored machines, whatever their common screen holds, and there no
action traps. -/
theorem congruent_history :
    (∀ m n : Machine ρ, m.Congruent n → ∀ actions : List Action,
      List.Forall₂ Outcome.Congruent (m.history actions) (n.history actions)) ∧
    ∀ s t : Storage ρ, s.Congruent t → ∀ actions : List Action, (∀ a ∈ actions, a.ordinary) →
      ∃ log log', s.history actions = .ok log ∧ t.history actions = .ok log' ∧
        List.Forall₂ Storage.CongruentReplies log log' := by
  refine ⟨?_, fun s t h actions ordinary => h.history ordinary⟩
  intro m n h actions
  induction actions generalizing m n with
  | nil => exact List.Forall₂.nil
  | cons a rest ih =>
    have first : (m.perform a).Congruent (n.perform a) := h.perform a
    exact List.Forall₂.cons first (ih _ _ first.machine)

/-- Two machines at `0x200` and at `0x1200`, whose pending calls come from `0x234` and from
`0xF234` and whose unused slots differ, run alike.  So do their stored forms with a screen of cells
that are neither lit nor dark. -/
theorem congruent_history_of_high_bits :
    let m : Machine CyclicSource :=
      { fresh [0x00, 0xEE] (CyclicSource.ofPattern [7]) with
        stack := { slots := Vector.replicate 16 0x234, depth := 1 } }
    let n : Machine CyclicSource :=
      { m with
        index := 0x3000
        pc := 0x1200
        stack := { slots := (Vector.replicate 16 9).set 0 0xF234, depth := 1 } }
    let s : Storage CyclicSource := { m.storage with screen := Vector.replicate 2048 5 }
    let t : Storage CyclicSource := { n.storage with screen := Vector.replicate 2048 5 }
    let actions : List Action := [.ticks 2, .cycle, .setKey 5 true, .cycle]
    m.Congruent n ∧
    List.Forall₂ Outcome.Congruent (m.history actions) (n.history actions) ∧
    s.Congruent t ∧
    ∃ log log', s.history actions = .ok log ∧ t.history actions = .ok log' ∧
      List.Forall₂ Storage.CongruentReplies log log' := by
  intro m n s t actions
  have pending : m.stack.Congruent n.stack := by
    refine ⟨rfl, ?_⟩
    intro i used
    obtain rfl : i = 0 := Fin.ext (Nat.lt_one_iff.1 used)
    decide +kernel
  have congruent : m.Congruent n :=
    ⟨rfl, rfl, by decide +kernel, by decide +kernel, pending, rfl, rfl, rfl, rfl, rfl⟩
  have stored : s.Congruent t := congruent.storage.withScreen _
  have ordinary : ∀ a ∈ actions, a.ordinary := by simp [actions, Action.ordinary]
  obtain ⟨onMachines, onStorages⟩ := congruent_history (ρ := CyclicSource)
  exact ⟨congruent, onMachines m n congruent actions, stored,
    onStorages s t stored actions ordinary⟩

end Machine

end Chip8
