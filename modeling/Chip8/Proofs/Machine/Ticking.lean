import Chip8.Proofs.Machine.Environment

/-!
# Counting the timers between cycles

Three instructions read or write a timer, `Instruction.usesTimers`.  A cycle at any other
instruction neither sees nor touches the timers, so it makes no difference whether they are counted
down before it or after it (`cycle_ticks`).

In a run of cycles and counts that carries out none of the three, all counts may therefore be moved
behind the cycles (`after_eq_ticks`): the run leads where the cycles alone lead, with the timers
counted down as often as they were in total.  Hence it does not matter where the counts stand.  The
main statement is `counts_may_be_moved`.
-/

namespace Chip8

/-- Whether an instruction reads or writes a timer. -/
def Instruction.usesTimers : Instruction → Bool
  | .readDelay _ | .setDelay _ | .setSound _ => true
  | _ => false

/-- Whether an action is a cycle or counts the timers down. -/
def Action.runsOrCounts : Action → Bool
  | .cycle | .ticks _ => true
  | _ => false

/-- How often the timers are counted down in a sequence of actions. -/
def Action.countsIn : List Action → Nat
  | [] => 0
  | .ticks count :: rest => count + countsIn rest
  | _ :: rest => countsIn rest

/-- The environment in which the timers have been counted down. -/
def Environment.counted {ρ : Type} (e : Environment ρ) (n : Nat) : Environment ρ :=
  { e with delay := countDown e.delay n, sound := countDown e.sound n }

namespace Machine

variable {ρ σ : Type} [ByteSource ρ] [ByteSource σ]

/-! ### One cycle -/

/-- The records of an instruction do not depend on the environment. -/
theorem log_execute_within (m : Machine ρ) (e : Environment σ) (i : Instruction) :
    ((m.within e).execute i).log = (m.execute i).log := by
  have stack : (m.within e).stack = m.stack := rfl
  have pc : (m.within e).pc = m.pc := rfl
  have reg : (m.within e).reg = m.reg := rfl
  cases i with
  | ret =>
    simp only [execute, stack]
    cases m.stack.pop? <;> rfl
  | call target =>
    simp only [execute, stack, pc]
    cases m.stack.push? m.pc <;> rfl
  | jumpOffset base =>
    simp only [execute, reg]
    split <;> rfl
  | _ => rfl

/-- A cycle at an instruction that uses no timer leaves the timers. -/
theorem timers_cycle {m : Machine ρ} (untimed : m.fetch.usesTimers = false) :
    m.cycle.machine.delay = m.delay ∧ m.cycle.machine.sound = m.sound := by
  have followed := m.environment_cycle
  generalize m.fetch = i at untimed followed
  have kept : (m.environment.follow m.reg i).delay = m.delay ∧
      (m.environment.follow m.reg i).sound = m.sound := by
    cases i with
    | setDelay x => cases untimed
    | setSound x => cases untimed
    | _ => exact ⟨rfl, rfl⟩
  rwa [← followed] at kept

/-- Counts of the timers before a cycle may be made after it, if its instruction uses no timer. -/
theorem cycle_ticks {m : Machine ρ} (untimed : m.fetch.usesTimers = false) (n : Nat) :
    (m.ticks n).cycle = { m.cycle with machine := m.cycle.machine.ticks n } := by
  have early : m.ticks n = m.within (m.environment.counted n) := rfl
  have late : m.cycle.machine.ticks n =
      m.cycle.machine.within ((m.environment.follow m.reg m.fetch).counted n) := by
    rw [← environment_cycle]
    rfl
  have samples : m.sample m.fetch = (m.within (m.environment.counted n)).sample m.fetch := by
    generalize m.fetch = i at untimed
    cases i with
    | readDelay x => cases untimed
    | _ => rfl
  have follows : (m.environment.counted n).follow m.reg m.fetch =
      (m.environment.follow m.reg m.fetch).counted n := by
    generalize m.fetch = i at untimed
    cases i with
    | setDelay x => cases untimed
    | setSound x => cases untimed
    | _ => rfl
  obtain ⟨fault, machine⟩ := cycle_within samples
  have log : (m.within (m.environment.counted n)).cycle.log = m.cycle.log :=
    congrArg (_ :: ·) (log_execute_within m.advance _ m.fetch)
  rw [follows, ← late] at machine
  rw [← early] at fault machine log
  calc (m.ticks n).cycle
      = ⟨(m.ticks n).cycle.machine, (m.ticks n).cycle.fault, (m.ticks n).cycle.log⟩ := rfl
    _ = ⟨m.cycle.machine.ticks n, m.cycle.fault, m.cycle.log⟩ := by rw [machine, fault, log]

/-! ### Runs of cycles and counts -/

omit [ByteSource ρ] in
@[simp] theorem fetch_ticks (m : Machine ρ) (n : Nat) : (m.ticks n).fetch = m.fetch := rfl

/-- Whether a run carries out no instruction that uses a timer. -/
def Untimed (m : Machine ρ) (actions : List Action) : Prop :=
  ∀ i ∈ m.instructions actions, i.usesTimers = false

theorem Untimed.of_cons {m : Machine ρ} {a : Action} {rest : List Action}
    (h : m.Untimed (a :: rest)) : (m.perform a).machine.Untimed rest :=
  fun i hi => h i (List.mem_append_right _ hi)

/-- A run that begins with a cycle and carries out no instruction that uses a timer does not begin
at such an instruction, even if the cycle fails. -/
theorem Untimed.fetch {m : Machine ρ} {rest : List Action} (h : m.Untimed (.cycle :: rest)) :
    m.fetch.usesTimers = false := by
  cases fault : m.cycle.fault with
  | none =>
    have carried : m.carriedOut .cycle = some m.fetch := by
      simp only [carriedOut, fault, Option.isNone_none, if_true]
    exact h m.fetch (by simp [instructions_cons, carried])
  | some f =>
    rcases cycle_fault_eq_some_iff.1 fault with ⟨fetched, -⟩ | ⟨target, fetched, -⟩
    · rw [fetched]
      rfl
    · rw [fetched]
      rfl

/-- Counts of the timers do not change which instruction a cycle carries out. -/
theorem carriedOut_ticks {m : Machine ρ} (untimed : m.fetch.usesTimers = false) (n : Nat) :
    (m.ticks n).carriedOut .cycle = m.carriedOut .cycle := by
  simp only [carriedOut, cycle_ticks untimed, fetch_ticks]

/-- Counts of the timers before a run of cycles and counts may be made after it, if the run carries
out no instruction that uses a timer, with the counts before it or without them. -/
theorem after_ticks {m : Machine ρ} {n : Nat} {actions : List Action}
    (paced : ∀ a ∈ actions, a.runsOrCounts)
    (untimed : m.Untimed actions ∨ (m.ticks n).Untimed actions) :
    (m.ticks n).after actions = (m.after actions).ticks n ∧
      (m.ticks n).instructions actions = m.instructions actions := by
  induction actions generalizing m with
  | nil => exact ⟨rfl, rfl⟩
  | cons a rest ih =>
    have pacedRest : ∀ b ∈ rest, b.runsOrCounts := fun b hb => paced b (List.mem_cons_of_mem a hb)
    have untimedRest : (m.perform a).machine.Untimed rest ∨
        ((m.ticks n).perform a).machine.Untimed rest := untimed.imp Untimed.of_cons Untimed.of_cons
    cases a with
    | cycle =>
      have now : m.fetch.usesTimers = false := untimed.elim Untimed.fetch Untimed.fetch
      have moved : ((m.ticks n).perform .cycle).machine = (m.perform .cycle).machine.ticks n :=
        congrArg Outcome.machine (cycle_ticks now n)
      rw [moved] at untimedRest
      obtain ⟨machine, instructions⟩ := ih pacedRest untimedRest
      rw [after_cons, instructions_cons, moved, carriedOut_ticks now, machine, instructions]
      exact ⟨rfl, rfl⟩
    | ticks count =>
      have moved : ((m.ticks n).perform (.ticks count)).machine =
          (m.perform (.ticks count)).machine.ticks n := by
        show (m.ticks n).ticks count = (m.ticks count).ticks n
        rw [← ticks_add, ← ticks_add, Nat.add_comm]
      rw [moved] at untimedRest
      rw [after_cons, instructions_cons, moved]
      exact ih pacedRest untimedRest
    | _ => cases paced _ List.mem_cons_self

/-- A run of cycles and counts that carries out no instruction that uses a timer, or whose cycles
alone carry out none, leads where the cycles alone lead, with all counts made at the end. -/
theorem after_eq_ticks {m : Machine ρ} {actions : List Action}
    (paced : ∀ a ∈ actions, a.runsOrCounts)
    (untimed : m.Untimed actions ∨ m.Untimed (List.replicate (actions.count .cycle) .cycle)) :
    m.after actions =
        (m.after (List.replicate (actions.count .cycle) .cycle)).ticks (Action.countsIn actions) ∧
      m.instructions actions =
        m.instructions (List.replicate (actions.count .cycle) .cycle) := by
  induction actions generalizing m with
  | nil => exact ⟨(ticks_zero m).symm, rfl⟩
  | cons a rest ih =>
    have pacedRest : ∀ b ∈ rest, b.runsOrCounts := fun b hb => paced b (List.mem_cons_of_mem a hb)
    cases a with
    | cycle =>
      rw [List.count_cons_self, List.replicate_succ] at untimed ⊢
      obtain ⟨machine, instructions⟩ := ih pacedRest (untimed.imp Untimed.of_cons Untimed.of_cons)
      rw [after_cons, instructions_cons, machine, instructions]
      exact ⟨rfl, rfl⟩
    | ticks count =>
      rw [List.count_cons_of_ne (by simp)] at untimed ⊢
      have bare : m.Untimed rest := by
        rcases untimed with counted | alone
        · have same := (after_ticks (m := m) pacedRest (Or.inr counted.of_cons)).2
          rw [Untimed, ← same]
          exact counted.of_cons
        · rw [Untimed, (ih pacedRest (Or.inr alone)).2]
          exact alone
      obtain ⟨moved, same⟩ := after_ticks (n := count) pacedRest (Or.inl bare)
      obtain ⟨machine, instructions⟩ := ih pacedRest (Or.inl bare)
      refine ⟨?_, same.trans instructions⟩
      show (m.ticks count).after rest = (m.after _).ticks (count + Action.countsIn rest)
      rw [moved, machine, ← ticks_add, Nat.add_comm]
    | _ => cases paced _ List.mem_cons_self

/-- Counts of the timers commute with execution.  At an instruction that uses no timer, a cycle and
any number of counts give the same outcome in both orders, and each timer ends as much lower, but
not below zero.  Hence two runs of cycles and counts with as many cycles and as many counts in total
lead to the same machine, wherever the counts stand among the cycles, if one of them carries out no
instruction that uses a timer; they then carry out the same instructions. -/
theorem counts_may_be_moved (m : Machine ρ) :
    (m.fetch.usesTimers = false → ∀ n,
      (m.ticks n).cycle = { m.cycle with machine := m.cycle.machine.ticks n } ∧
      (m.ticks n).cycle.machine.delay.toNat = m.delay.toNat - n ∧
      (m.ticks n).cycle.machine.sound.toNat = m.sound.toNat - n) ∧
    ∀ first second : List Action,
      (∀ a ∈ first, a.runsOrCounts) → (∀ a ∈ second, a.runsOrCounts) →
      first.count .cycle = second.count .cycle →
      Action.countsIn first = Action.countsIn second →
      (∀ i ∈ m.instructions first, i.usesTimers = false) →
      m.after first = m.after second ∧ m.instructions first = m.instructions second := by
  refine ⟨?_, ?_⟩
  · intro untimed n
    obtain ⟨delay, sound⟩ := timers_cycle untimed
    rw [cycle_ticks untimed, ← delay, ← sound]
    exact ⟨rfl, toNat_countDown _ _, toNat_countDown _ _⟩
  · intro first second paced paced' cycles counts untimed
    obtain ⟨machine, instructions⟩ := after_eq_ticks paced (Or.inl untimed)
    have alone : m.Untimed (List.replicate (second.count .cycle) .cycle) := by
      rw [Untimed, ← cycles, ← instructions]
      exact untimed
    obtain ⟨machine', instructions'⟩ := after_eq_ticks paced' (Or.inr alone)
    rw [machine, instructions, machine', instructions', cycles, counts]
    exact ⟨rfl, rfl⟩

/-- A program that counts in a register and jumps back, with its timers counted down before, between
and after the cycles; the sound timer stops at zero. -/
theorem counts_may_be_moved_of_loop :
    let m : Machine CyclicSource :=
      { fresh [0x70, 0x01, 0x12, 0x00] (CyclicSource.ofPattern [7]) with delay := 200, sound := 4 }
    let first : List Action := [.ticks 2, .cycle, .cycle, .ticks 3, .cycle]
    let second : List Action := [.cycle, .ticks 1, .ticks 1, .cycle, .cycle, .ticks 3]
    m.fetch.usesTimers = false ∧
    (m.ticks 5).cycle.machine.delay.toNat = 195 ∧ (m.ticks 5).cycle.machine.sound.toNat = 0 ∧
    m.after first = m.after second ∧
    m.instructions second = [.addConst 0 1, .jump 0x200, .addConst 0 1] := by
  intro m first second
  obtain ⟨once, runs⟩ := counts_may_be_moved m
  have untimed : m.fetch.usesTimers = false := by decide +kernel
  obtain ⟨-, delay, sound⟩ := once untimed 5
  have carried : m.instructions first = [.addConst 0 1, .jump 0x200, .addConst 0 1] := by
    decide +kernel
  have noTimers : ∀ i ∈ m.instructions first, i.usesTimers = false := by
    rw [carried]
    decide
  obtain ⟨machine, instructions⟩ := runs first second (by decide) (by decide) rfl rfl noTimers
  exact ⟨untimed, delay, sound, machine, instructions.symm.trans carried⟩

end Machine

end Chip8
