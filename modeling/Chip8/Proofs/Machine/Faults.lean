import Chip8.Proofs.Instruction.Operands
import Chip8.Proofs.Machine.Runs

/-!
# Faults of a cycle

An instruction meets a fault in three situations: a return with an empty call stack, a call with a
full one, and a jump with offset beyond sixteen bits.  `execute_fault_eq_some_iff` lists them, and
`machine_execute_of_fault` says that the machine is then left as it was.

A cycle meets only the first two, since the operands of a fetched instruction fit in a word.  The
program counter is moved before the instruction is executed and moved back after a fault, and the
fault names the address from before the move (`cycle_fault_eq_some_iff`).  Hence a failed cycle
changes nothing (`machine_cycle_of_fault`).  What the host does between cycles touches neither the
fetched instruction nor the call stack, so the same fault is met for ever after:
`cycle_fault_exact_and_permanent`.
-/

namespace Chip8.Machine

variable {ρ : Type}

/-! ### Faults of an instruction -/

@[simp] theorem current_advance (m : Machine ρ) : m.advance.current = m.pc :=
  UInt16.add_sub_cancel m.pc 2

@[simp] theorem stack_advance (m : Machine ρ) : m.advance.stack = m.stack := rfl

/-- A cycle that puts the program counter back restores the whole machine. -/
@[simp] theorem advance_with_pc (m : Machine ρ) : { m.advance with pc := m.pc } = m := rfl

/-- A fetched jump with offset stays within sixteen bits. -/
theorem offset_add_lt_of_fetch {m : Machine ρ} {base : UInt16} (h : m.fetch = .jumpOffset base) :
    (m.reg 0).toNat + base.toNat < 65536 :=
  Instruction.offset_add_lt_of_decode h (m.reg 0)

variable [ByteSource ρ]

/-- A return meets a fault exactly if no call is pending. -/
theorem execute_ret_fault_eq_some_iff {m : Machine ρ} {f : Fault} :
    (m.execute .ret).fault = some f ↔ m.stack.depth = 0 ∧ f = .stackUnderflow m.current := by
  rw [← CallStack.pop?_eq_none_iff]
  simp only [execute]
  cases m.stack.pop? with
  | none => simp [eq_comm]
  | some popped => simp

/-- A call meets a fault exactly if all slots of the call stack are in use. -/
theorem execute_call_fault_eq_some_iff {m : Machine ρ} {target : UInt16} {f : Fault} :
    (m.execute (.call target)).fault = some f ↔
      m.stack.depth = 16 ∧ f = .stackOverflow m.current := by
  have refused : m.stack.push? m.pc = none ↔ m.stack.depth = 16 := CallStack.push?_eq_none_iff
  rw [← refused]
  simp only [execute]
  cases m.stack.push? m.pc with
  | none => simp [eq_comm]
  | some deeper => simp

/-- A jump with offset meets a fault exactly if the sum does not fit in sixteen bits. -/
theorem execute_jumpOffset_fault_eq_some_iff {m : Machine ρ} {base : UInt16} {f : Fault} :
    (m.execute (.jumpOffset base)).fault = some f ↔
      65536 ≤ (m.reg 0).toNat + base.toNat ∧ f = .addressOverflow m.current := by
  simp only [execute]
  split
  · next fits => simp [Nat.not_le.2 fits]
  · next large => simp [Nat.not_lt.1 large, eq_comm]

/-- The situations in which an instruction meets a fault, with the fault. -/
theorem execute_fault_eq_some_iff {m : Machine ρ} {i : Instruction} {f : Fault} :
    (m.execute i).fault = some f ↔
      (i = .ret ∧ m.stack.depth = 0 ∧ f = .stackUnderflow m.current) ∨
      (∃ target, i = .call target ∧ m.stack.depth = 16 ∧ f = .stackOverflow m.current) ∨
      (∃ base, i = .jumpOffset base ∧ 65536 ≤ (m.reg 0).toNat + base.toNat ∧
        f = .addressOverflow m.current) := by
  cases i with
  | ret => simp [execute_ret_fault_eq_some_iff]
  | call target => simp [execute_call_fault_eq_some_iff]
  | jumpOffset base => simp [execute_jumpOffset_fault_eq_some_iff]
  | _ => simp [execute]

/-- An instruction that meets a fault leaves the machine as it was. -/
theorem machine_execute_of_fault {m : Machine ρ} {i : Instruction} {f : Fault}
    (h : (m.execute i).fault = some f) : (m.execute i).machine = m := by
  rcases execute_fault_eq_some_iff.1 h with ⟨rfl, empty, -⟩ | ⟨target, rfl, full, -⟩ |
    ⟨base, rfl, large, -⟩
  · simp [execute, CallStack.pop?_eq_none_iff.2 empty]
  · simp [execute, CallStack.push?_eq_none_iff.2 full]
  · simp [execute, Nat.not_lt.2 large]

/-! ### Faults of a cycle -/

/-- A cycle meets a fault exactly at a return with an empty call stack and at a call with a full
one, and the fault names the address of the instruction. -/
theorem cycle_fault_eq_some_iff {m : Machine ρ} {f : Fault} :
    m.cycle.fault = some f ↔
      (m.fetch = .ret ∧ m.stack.depth = 0 ∧ f = .stackUnderflow m.pc) ∨
      (∃ target, m.fetch = .call target ∧ m.stack.depth = 16 ∧ f = .stackOverflow m.pc) := by
  rw [cycle_fault, execute_fault_eq_some_iff, current_advance, stack_advance]
  constructor
  · rintro (h | h | ⟨base, fetched, large, -⟩)
    · exact Or.inl h
    · exact Or.inr h
    · have fits : (m.reg 0).toNat + base.toNat < 65536 := offset_add_lt_of_fetch fetched
      exact absurd large (Nat.not_le.2 fits)
  · rintro (h | h)
    · exact Or.inl h
    · exact Or.inr (Or.inl h)

/-- A failed cycle leaves the machine as it was. -/
theorem machine_cycle_of_fault {m : Machine ρ} {f : Fault} (h : m.cycle.fault = some f) :
    m.cycle.machine = m := by
  have executed : (m.advance.execute m.fetch).fault = some f := h
  simp only [cycle, executed, Option.isSome_some, if_true]
  rw [machine_execute_of_fault executed, advance_with_pc]

/-! ### Instructions carried out -/

/-- An action that carries out no instruction writes at most the timers and the keypad. -/
theorem perform_of_carriedOut_eq_none {m : Machine ρ} {a : Action} (h : m.carriedOut a = none) :
    ∃ delay sound keypad, (m.perform a).machine =
      { m with delay := delay, sound := sound, keypad := keypad } := by
  rcases m.perform_cases a with rfl | ⟨i, rfl⟩ | ⟨-, -, delay, sound, keypad, written⟩
  · obtain ⟨f, failed⟩ : ∃ f, m.cycle.fault = some f := by
      simpa [carriedOut, Option.ne_none_iff_exists'] using h
    exact ⟨m.delay, m.sound, m.keypad, machine_cycle_of_fault failed⟩
  · obtain ⟨f, failed⟩ : ∃ f, (m.execute i).fault = some f := by
      simpa [carriedOut, Option.ne_none_iff_exists'] using h
    exact ⟨m.delay, m.sound, m.keypad, machine_execute_of_fault failed⟩
  · exact ⟨delay, sound, keypad, by rw [written]⟩

/-- An action that carries out an instruction executes it, a cycle after the program counter has
been moved. -/
theorem perform_of_carriedOut_eq_some {m : Machine ρ} {a : Action} {i : Instruction}
    (h : m.carriedOut a = some i) :
    ∃ n, (n = m ∨ n = m.advance) ∧ (n.execute i).fault = none ∧
      (m.perform a).machine = (n.execute i).machine := by
  rcases m.perform_cases a with rfl | ⟨j, rfl⟩ | ⟨-, nothing, -⟩
  · obtain ⟨clean, rfl⟩ : m.cycle.fault = none ∧ m.fetch = i := by
      simpa [carriedOut] using h
    exact ⟨m.advance, Or.inr rfl, clean, cycle_machine_of_fault_eq_none clean⟩
  · obtain ⟨clean, rfl⟩ : (m.execute j).fault = none ∧ j = i := by
      simpa [carriedOut] using h
    exact ⟨m, Or.inl rfl, clean, rfl⟩
  · rw [nothing] at h
    cases h

/-! ### Failed cycles in a run -/

/-- Whether a cycle fails is decided by the memory, the program counter and the call stack. -/
theorem cycle_fault_congr (m n : Machine ρ) {f : Fault} (memory : n.memory = m.memory)
    (pc : n.pc = m.pc) (stack : n.stack = m.stack) :
    n.cycle.fault = some f ↔ m.cycle.fault = some f := by
  have fetched : n.fetch = m.fetch := by
    rw [fetch, fetch, memory, pc]
  rw [cycle_fault_eq_some_iff, cycle_fault_eq_some_iff, fetched, pc, stack]

/-- After a failed cycle an ordinary action leads to a machine whose cycle fails alike. -/
theorem cycle_fault_perform {m : Machine ρ} {f : Fault} (h : m.cycle.fault = some f) {a : Action}
    (ordinary : a.ordinary) : (m.perform a).machine.cycle.fault = some f := by
  rcases m.perform_cases_of_ordinary ordinary with rfl | ⟨delay, sound, keypad, written⟩
  · have unchanged : (m.perform .cycle).machine = m := machine_cycle_of_fault h
    rwa [unchanged]
  · let n : Machine ρ := { m with delay := delay, sound := sound, keypad := keypad }
    have alike : n.cycle.fault = some f := (cycle_fault_congr m n rfl rfl rfl).2 h
    rwa [written]

/-- The faults of a cycle are exact, atomic and permanent: a cycle fails exactly at a return with
an empty call stack and at a call with a full one, naming the address it started from; a failed
cycle changes nothing; and every cycle after it fails alike and changes nothing, whatever the host
does in between. -/
theorem cycle_fault_exact_and_permanent (m : Machine ρ) :
    (∀ f, m.cycle.fault = some f ↔
      (m.fetch = .ret ∧ m.stack.depth = 0 ∧ f = .stackUnderflow m.pc) ∨
      (∃ target, m.fetch = .call target ∧ m.stack.depth = 16 ∧ f = .stackOverflow m.pc)) ∧
    ∀ f, m.cycle.fault = some f →
      m.cycle.machine = m ∧
      ∀ actions : List Action, (∀ a ∈ actions, a.ordinary) →
        (m.cycle.machine.after actions).cycle.fault = some f ∧
        (m.cycle.machine.after actions).cycle.machine = m.cycle.machine.after actions := by
  refine ⟨fun f => cycle_fault_eq_some_iff, ?_⟩
  intro f h
  have unchanged : m.cycle.machine = m := machine_cycle_of_fault h
  refine ⟨unchanged, ?_⟩
  intro actions ordinary
  rw [unchanged]
  have again : (m.after actions).cycle.fault = some f :=
    after_induction (P := fun n => n.cycle.fault = some f) h fun n a ha failed =>
      cycle_fault_perform failed (ordinary a ha)
  exact ⟨again, machine_cycle_of_fault again⟩

/-- A program that begins with a return never gets beyond it. -/
theorem cycle_fault_at_first_return :
    let start := fresh [0x00, 0xEE] (CyclicSource.ofPattern [7])
    let later : List Action := [.ticks 3, .cycle, .setKey 5 true, .setDelay 9]
    start.cycle.fault = some (.stackUnderflow 0x200) ∧
    start.cycle.machine = start ∧
    (start.cycle.machine.after later).cycle.fault = some (.stackUnderflow 0x200) := by
  intro start later
  obtain ⟨exact, permanent⟩ := cycle_fault_exact_and_permanent start
  have failed : start.cycle.fault = some (.stackUnderflow 0x200) :=
    (exact _).2 (Or.inl ⟨by decide +kernel, rfl, rfl⟩)
  obtain ⟨unchanged, forever⟩ := permanent _ failed
  exact ⟨failed, unchanged, (forever later (by decide)).1⟩

end Chip8.Machine
