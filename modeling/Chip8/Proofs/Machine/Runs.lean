import Chip8.Machine.Action

/-!
# Runs of a machine

A run is a sequence of actions.  An action is a cycle, the execution of an instruction given from
outside, or a write of the host; the latter changes the timers and the keypad and nothing else
(`perform_cases`).  `Action.ordinary` singles out the actions of a host that leaves the choice of
instructions to the program.

`Machine.carriedOut` is the instruction that an action carries out without a fault, if there is
one, and `Machine.instructions` lists those of a run in order.  What every action preserves holds
after a run (`after_induction`).  Memory is one such thing, as long as no instruction stores to it
(`memory_cycle_of_not_stores`).
-/

namespace Chip8

/-- Whether an action leaves the choice of instructions to the program: all actions do, except the
execution of an instruction given from outside. -/
def Action.ordinary : Action → Bool
  | .execute _ => false
  | _ => true

/-- Whether an action is one that the host does between cycles: a count of the timers or a write
to the timers or the keypad. -/
def Action.fromHost : Action → Bool
  | .cycle | .execute _ => false
  | _ => true

/-- Whether an instruction writes to memory. -/
def Instruction.stores : Instruction → Bool
  | .storeDecimal _ | .dump _ => true
  | _ => false

namespace Machine

variable {ρ : Type} [ByteSource ρ]

/-- The instruction that an action carries out without a fault. -/
def carriedOut (m : Machine ρ) : Action → Option Instruction
  | .cycle => if m.cycle.fault.isNone then some m.fetch else none
  | .execute i => if (m.execute i).fault.isNone then some i else none
  | _ => none

/-- The instructions that a sequence of actions carries out without a fault, in order. -/
def instructions (m : Machine ρ) : List Action → List Instruction
  | [] => []
  | a :: rest => (m.carriedOut a).toList ++ (m.perform a).machine.instructions rest

theorem instructions_cons (m : Machine ρ) (a : Action) (rest : List Action) :
    m.instructions (a :: rest) =
      (m.carriedOut a).toList ++ (m.perform a).machine.instructions rest := rfl

/-- An action is a cycle, the execution of an instruction, or a write to the timers and the
keypad. -/
theorem perform_cases (m : Machine ρ) (a : Action) :
    a = .cycle ∨ (∃ i, a = .execute i) ∨
      (a.ordinary ∧ m.carriedOut a = none ∧ ∃ delay sound keypad,
        m.perform a =
          { machine := { m with delay := delay, sound := sound, keypad := keypad } }) := by
  cases a with
  | cycle => exact Or.inl rfl
  | execute i => exact Or.inr (Or.inl ⟨i, rfl⟩)
  | ticks count => exact Or.inr (Or.inr ⟨rfl, rfl, _, _, _, rfl⟩)
  | setKeypad keys => exact Or.inr (Or.inr ⟨rfl, rfl, _, _, _, rfl⟩)
  | setKey k down => exact Or.inr (Or.inr ⟨rfl, rfl, _, _, _, rfl⟩)
  | setDelay value => exact Or.inr (Or.inr ⟨rfl, rfl, _, _, _, rfl⟩)
  | setSound value => exact Or.inr (Or.inr ⟨rfl, rfl, _, _, _, rfl⟩)

/-- An ordinary action is a cycle or a write to the timers and the keypad. -/
theorem perform_cases_of_ordinary (m : Machine ρ) {a : Action} (ordinary : a.ordinary) :
    a = .cycle ∨ ∃ delay sound keypad,
      m.perform a = { machine := { m with delay := delay, sound := sound, keypad := keypad } } := by
  rcases m.perform_cases a with cycle | ⟨i, rfl⟩ | ⟨-, -, written⟩
  · exact Or.inl cycle
  · cases ordinary
  · exact Or.inr written

/-- An action of the host writes to the timers and the keypad. -/
theorem perform_of_fromHost (m : Machine ρ) {a : Action} (fromHost : a.fromHost) :
    ∃ delay sound keypad,
      m.perform a = { machine := { m with delay := delay, sound := sound, keypad := keypad } } := by
  rcases m.perform_cases a with rfl | ⟨i, rfl⟩ | ⟨-, -, written⟩
  · cases fromHost
  · cases fromHost
  · exact written

/-- A property that each of the actions preserves holds after all of them. -/
theorem after_induction {P : Machine ρ → Prop} {m : Machine ρ} {actions : List Action}
    (start : P m) (step : ∀ n, ∀ a ∈ actions, P n → P (n.perform a).machine) :
    P (m.after actions) := by
  induction actions generalizing m with
  | nil => exact start
  | cons a rest ih =>
    have first : P (m.perform a).machine := step m a List.mem_cons_self start
    exact ih first fun n b hb => step n b (List.mem_cons_of_mem a hb)

/-- The writes of the host change the timers and the keypad only. -/
theorem after_of_fromHost (m : Machine ρ) {actions : List Action}
    (fromHost : ∀ a ∈ actions, a.fromHost) :
    ∃ delay sound keypad,
      m.after actions = { m with delay := delay, sound := sound, keypad := keypad } := by
  refine after_induction
    (P := fun n => ∃ delay sound keypad,
      n = { m with delay := delay, sound := sound, keypad := keypad })
    ⟨m.delay, m.sound, m.keypad, rfl⟩ ?_
  rintro n a ha ⟨delay, sound, keypad, rfl⟩
  obtain ⟨delay, sound, keypad, written⟩ :=
    perform_of_fromHost { m with delay := delay, sound := sound, keypad := keypad } (fromHost a ha)
  exact ⟨delay, sound, keypad, congrArg Outcome.machine written⟩

/-- An instruction that is no store leaves memory as it was. -/
theorem memory_execute_of_not_stores (m : Machine ρ) {i : Instruction}
    (reads : i.stores = false) : (m.execute i).machine.memory = m.memory := by
  have skip (condition : Bool) : (m.skipIf condition).memory = m.memory := by
    cases condition <;> rfl
  cases i with
  | storeDecimal x => cases reads
  | dump x => cases reads
  | ret =>
    simp only [execute]
    cases m.stack.pop? <;> rfl
  | call target =>
    simp only [execute]
    cases m.stack.push? m.pc <;> rfl
  | jumpOffset base =>
    simp only [execute]
    split <;> rfl
  | awaitKey x =>
    simp only [execute, awaitKey]
    cases m.keypad.lowest? <;> rfl
  | skipIfConst x value => exact skip _
  | skipUnlessConst x value => exact skip _
  | skipIfSame x y => exact skip _
  | skipUnlessSame x y => exact skip _
  | skipIfPressed x => exact skip _
  | skipUnlessPressed x => exact skip _
  | _ => rfl

/-- A cycle whose instruction is no store leaves memory as it was. -/
theorem memory_cycle_of_not_stores {m : Machine ρ} (reads : m.fetch.stores = false) :
    m.cycle.machine.memory = m.memory := by
  have memory : (m.advance.execute m.fetch).machine.memory = m.memory :=
    m.advance.memory_execute_of_not_stores reads
  unfold cycle
  dsimp only
  split
  · exact memory
  · exact memory

end Machine

end Chip8
