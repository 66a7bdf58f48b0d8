import Chip8.Proofs.Storage.Agreement

/-!
# Safety of checked runs

A stored machine that `Storage.boot` loaded a program into, and that any completed actions have
been done to, is well-formed, and whatever bytes its program counter points at, its next cycle
completes: no index leaves its array, no depth or timer falls below zero and no unsigned sum leaves
its word.  The one operation that can trap is a jump with offset that is given from outside.  All
of this is `checked_run_safe`.
-/

namespace Chip8.Storage

variable {ρ : Type} [ByteSource ρ]

/-- A run in which no jump with offset is given from outside completes. -/
theorem after_storage {m : Machine ρ} {actions : List Action}
    (harmless : ∀ base, .execute (.jumpOffset base) ∉ actions) :
    m.storage.after actions = .ok (m.after actions).storage := by
  induction actions generalizing m with
  | nil => rfl
  | cons a rest ih =>
    have fits : ∀ base, a = .execute (.jumpOffset base) →
        (m.reg 0).toNat + base.toNat < 65536 := by
      rintro base rfl
      exact absurd List.mem_cons_self (harmless base)
    have later : ∀ base, .execute (.jumpOffset base) ∉ rest :=
      fun base given => harmless base (List.mem_cons_of_mem a given)
    simp only [after, perform_storage m a fits, bind, Except.bind]
    exact ih later

/-- Ordinary actions give no jump with offset from outside. -/
theorem execute_not_mem_of_ordinary {actions : List Action}
    (ordinary : ∀ a ∈ actions, a.ordinary) (base : UInt16) :
    .execute (.jumpOffset base) ∉ actions := by
  intro given
  cases ordinary _ given

/-- In every reachable stored machine the depth is at most sixteen and every cell is lit or dark.
Its next cycle completes whatever memory holds, and so does every further run of ordinary actions.
An instruction given from outside traps exactly if it is a jump with offset whose sum does not fit
in sixteen bits, and then by overflow.  The machine reached is the stored form of the one that the
plain run leads to, and its next cycle gives the stored outcome of the plain cycle. -/
theorem checked_run_safe {program : List UInt8} {random : ρ} {start s : Storage ρ}
    (booted : boot program random = .ok (.ok start)) {actions : List Action}
    (completed : start.after actions = .ok s) :
    s.depth.toNat ≤ 16 ∧
    (∀ k (h : k < 2048), s.screen[k] = Frame.lit ∨ s.screen[k] = Frame.dark) ∧
    (∀ memory, ∃ reply, cycle { s with memory := memory } = .ok reply) ∧
    (∀ more : List Action, (∀ a ∈ more, a.ordinary) →
      ∃ t, s.after more = .ok t ∧ t.WellFormed) ∧
    (∀ i trap, s.execute i = .error trap ↔
      trap = .overflow ∧ ∃ base v0, i = .jumpOffset base ∧
        Checked.get s.registers 0 = .ok v0 ∧ 65535 < v0.toNat + base.toNat) ∧
    ∃ m, Machine.boot program random = .ok m ∧ s = (m.after actions).storage ∧
      s.cycle = .ok (m.after actions).cycle.stored := by
  obtain ⟨first, loaded, rfl⟩ := exists_boot_of_boot booted
  obtain rfl : s = (first.after actions).storage := eq_storage_of_after_storage completed
  have invariant : (first.after actions).storage.WellFormed := wellFormed_storage _
  refine ⟨invariant.depth_le, invariant.binary, ?_, ?_, ?_,
    first, loaded, rfl, cycle_storage (first.after actions)⟩
  · intro memory
    exact ⟨_, cycle_storage { first.after actions with memory := ⟨memory⟩ }⟩
  · intro more ordinary
    exact ⟨_, after_storage (execute_not_mem_of_ordinary ordinary), wellFormed_storage _⟩
  · intro i trap
    have v0 : Checked.get (first.after actions).storage.registers 0 =
        .ok ((first.after actions).reg 0) := reg_storage (first.after actions) 0
    rw [execute_storage_eq_error_iff, v0]
    simp only [Except.ok.injEq, exists_and_left, exists_eq_left']

/-- After a run with a sprite drawn across the lower right corner and with `V0` set to `0xFF`, the
jump with offset to `0xFFFF` traps, while the cycle at the fetched jump with offset completes. -/
theorem checked_run_safe_of_offset :
    let first := Machine.fresh [0xBF, 0xFF] (CyclicSource.ofPattern [7])
    let actions : List Action :=
      [.execute (.setConst 0 0xFF), .execute (.setConst 1 31), .execute (.draw 0 1 15), .ticks 3]
    let s := (first.after actions).storage
    boot [0xBF, 0xFF] (CyclicSource.ofPattern [7]) = .ok (.ok first.storage) ∧
    first.storage.after actions = .ok s ∧
    (∃ reply, s.cycle = .ok reply) ∧
    s.execute (.jumpOffset 0xFFFF) = .error .overflow := by
  intro first actions s
  have booted : boot [0xBF, 0xFF] (CyclicSource.ofPattern [7]) = .ok (.ok first.storage) := by
    rw [boot_eq]
    rfl
  have completed : first.storage.after actions = .ok s := after_storage (by simp [actions])
  obtain ⟨-, -, fetched, -, traps, -⟩ := checked_run_safe booted completed
  refine ⟨booted, completed, fetched s.memory, ?_⟩
  have set : (first.after actions).reg 0 = 0xFF := by decide +kernel
  have v0 : Checked.get s.registers 0 = .ok 0xFF :=
    (reg_storage (first.after actions) 0).trans (congrArg Except.ok set)
  exact (traps _ _).2 ⟨rfl, 0xFFFF, 0xFF, rfl, v0, by decide⟩

end Chip8.Storage
