import Chip8.Proofs.Machine.Environment

/-!
# Recording and replaying a run

Two machines that agree on everything a program works with, `Machine.Agrees`, may stand in
different environments.  They still agree after a cycle in which the instruction samples the same
in both (`Agrees.cycle`), and what the host does between cycles touches nothing on which they
agree.  So a run is repeated in another environment as soon as its samples are repeated, whatever
the timers, the keypads and the sources of random bytes are at all other moments.  This is the main
statement, `replay_of_samples`.

It says in particular that the sound timer, which nothing samples, has no influence.  For this the
machines of two runs are compared after their sound timers have been set to zero, by
`Machine.silenced`.
-/

namespace Chip8

/-- Whether an action of the host writes the sound timer. -/
def Action.setsSound : Action → Bool
  | .setSound _ => true
  | _ => false

namespace Machine

variable {ρ σ : Type}

/-- Whether two machines agree on everything that a program works with. -/
structure Agrees (m : Machine ρ) (n : Machine σ) : Prop where
  memory : m.memory = n.memory
  registers : m.registers = n.registers
  index : m.index = n.index
  pc : m.pc = n.pc
  stack : m.stack = n.stack
  screen : m.screen = n.screen

theorem Agrees.symm {m : Machine ρ} {n : Machine σ} (h : m.Agrees n) : n.Agrees m :=
  ⟨h.memory.symm, h.registers.symm, h.index.symm, h.pc.symm, h.stack.symm, h.screen.symm⟩

theorem Agrees.trans {τ : Type} {m : Machine ρ} {n : Machine σ} {k : Machine τ}
    (h : m.Agrees n) (h' : n.Agrees k) : m.Agrees k :=
  ⟨h.memory.trans h'.memory, h.registers.trans h'.registers, h.index.trans h'.index,
    h.pc.trans h'.pc, h.stack.trans h'.stack, h.screen.trans h'.screen⟩

/-- A change of the environment leaves what a program works with. -/
theorem agrees_within (m : Machine ρ) (e : Environment σ) : m.Agrees (m.within e) :=
  ⟨rfl, rfl, rfl, rfl, rfl, rfl⟩

/-- Machines that agree differ by their environments only. -/
theorem Agrees.eq_within {m : Machine ρ} {n : Machine σ} (h : m.Agrees n) :
    n = m.within n.environment := by
  obtain ⟨memory, registers, index, pc, stack, screen⟩ := h
  cases n
  simp only [within, environment, memory, registers, index, pc, stack, screen]

variable [ByteSource ρ] [ByteSource σ]

/-- Machines that agree still agree after a cycle whose instruction samples the same in both, and
the cycle fails in both for the same reason or in neither. -/
theorem Agrees.cycle {m : Machine ρ} {n : Machine σ} (h : m.Agrees n)
    (samples : m.sample m.fetch = n.sample m.fetch) :
    m.cycle.fault = n.cycle.fault ∧ m.cycle.machine.Agrees n.cycle.machine := by
  have split := h.eq_within
  generalize n.environment = e at split
  subst split
  obtain ⟨fault, machine⟩ := cycle_within samples
  rw [fault, machine]
  exact ⟨rfl, agrees_within _ _⟩

/-! ### The host -/

/-- What the host does leaves everything that a program works with. -/
theorem agrees_after_of_fromHost (m : Machine ρ) {actions : List Action}
    (host : ∀ a ∈ actions, a.fromHost) : (m.after actions).Agrees m := by
  obtain ⟨delay, sound, keypad, reached⟩ := m.after_of_fromHost host
  rw [reached]
  exact ⟨rfl, rfl, rfl, rfl, rfl, rfl⟩

/-- The machine in which cycle `k` of a run begins, if the host does `host j` before each cycle
`j`. -/
def beforeCycle (m : Machine ρ) (host : Nat → List Action) : Nat → Machine ρ
  | 0 => m.after (host 0)
  | k + 1 => (m.beforeCycle host k).cycle.machine.after (host (k + 1))

/-- As long as every cycle samples the same, the machines of two runs agree before each cycle. -/
theorem Agrees.beforeCycle {m : Machine ρ} {n : Machine σ} (h : m.Agrees n)
    {host host' : Nat → List Action} (fromHost : ∀ k, ∀ a ∈ host k, a.fromHost)
    (fromHost' : ∀ k, ∀ a ∈ host' k, a.fromHost) {k : Nat}
    (samples : ∀ j < k, (m.beforeCycle host j).sample (m.beforeCycle host j).fetch =
      (n.beforeCycle host' j).sample (m.beforeCycle host j).fetch) :
    (m.beforeCycle host k).Agrees (n.beforeCycle host' k) := by
  induction k with
  | zero =>
    have first := agrees_after_of_fromHost m (fromHost 0)
    have second := agrees_after_of_fromHost n (fromHost' 0)
    exact (first.trans h).trans second.symm
  | succ k ih =>
    have before := ih fun j hj => samples j (Nat.lt_succ_of_lt hj)
    obtain ⟨-, cycled⟩ := before.cycle (samples k (Nat.lt_succ_self k))
    have first := agrees_after_of_fromHost (m.beforeCycle host k).cycle.machine (fromHost (k + 1))
    have second :=
      agrees_after_of_fromHost (n.beforeCycle host' k).cycle.machine (fromHost' (k + 1))
    exact (first.trans cycled).trans second.symm

/-! ### The sound timer -/

/-- The machine with its sound timer at zero. -/
def silenced (m : Machine ρ) : Machine ρ :=
  { m with sound := 0 }

omit [ByteSource ρ] in
/-- Machines that are the same but for the sound timer differ by an environment of which this is
true. -/
theorem eq_within_of_silenced {m n : Machine ρ} (h : m.silenced = n.silenced) :
    n = m.within { m.environment with sound := n.sound } := by
  cases m
  cases n
  simp only [silenced, mk.injEq] at h
  simp only [within, environment, mk.injEq]
  obtain ⟨memory, registers, index, pc, stack, delay, -, keypad, screen, random⟩ := h
  exact ⟨memory.symm, registers.symm, index.symm, pc.symm, stack.symm, delay.symm, trivial,
    keypad.symm, screen.symm, random.symm⟩

/-- A cycle of machines that are the same but for the sound timer leaves such machines, and fails
in both for the same reason or in neither. -/
theorem silenced_cycle {m n : Machine ρ} (h : m.silenced = n.silenced) :
    m.cycle.fault = n.cycle.fault ∧ m.cycle.machine.silenced = n.cycle.machine.silenced := by
  have samples : m.sample m.fetch =
      (m.within { m.environment with sound := n.sound }).sample m.fetch := by
    cases m.fetch <;> rfl
  obtain ⟨fault, machine⟩ := cycle_within samples
  rw [← eq_within_of_silenced h] at fault machine
  refine ⟨fault.symm, ?_⟩
  rw [machine]
  calc m.cycle.machine.silenced
      = (m.cycle.machine.within (m.environment.follow m.reg m.fetch)).silenced := by
        rw [← environment_cycle]
        rfl
    _ = (m.cycle.machine.within (Environment.follow _ m.reg m.fetch)).silenced := by
        cases m.fetch <;> rfl

/-- Host actions other than writes of the sound timer keep machines the same but for it. -/
theorem silenced_perform {m n : Machine ρ} (h : m.silenced = n.silenced) {a : Action}
    (fromHost : a.fromHost) : (m.perform a).machine.silenced = (n.perform a).machine.silenced := by
  rw [eq_within_of_silenced h]
  cases a with
  | cycle => cases fromHost
  | execute i => cases fromHost
  | _ => rfl

/-- Host actions keep machines the same but for the sound timer if in one of them the writes of
the sound timer are left out. -/
theorem silenced_after_filter {m n : Machine ρ} (h : m.silenced = n.silenced)
    {actions : List Action} (fromHost : ∀ a ∈ actions, a.fromHost) :
    (m.after (actions.filter (!·.setsSound))).silenced = (n.after actions).silenced := by
  induction actions generalizing m n with
  | nil => exact h
  | cons a rest ih =>
    have later : ∀ b ∈ rest, b.fromHost := fun b hb => fromHost b (List.mem_cons_of_mem a hb)
    cases sets : a.setsSound with
    | true =>
      obtain ⟨value, rfl⟩ : ∃ value, a = .setSound value := by
        cases a <;> simp_all [Action.setsSound]
      exact ih h later
    | false =>
      rw [List.filter_cons_of_pos (by simp [sets])]
      exact ih (silenced_perform h (fromHost a List.mem_cons_self)) later

/-- Host actions that are alike except for writes of the sound timer keep machines the same but for
it. -/
theorem silenced_after {m n : Machine ρ} (h : m.silenced = n.silenced) {actions more : List Action}
    (fromHost : ∀ a ∈ actions, a.fromHost) (fromHost' : ∀ a ∈ more, a.fromHost)
    (alike : actions.filter (!·.setsSound) = more.filter (!·.setsSound)) :
    (m.after actions).silenced = (n.after more).silenced := by
  have first := silenced_after_filter (rfl : m.silenced = m.silenced) fromHost
  have second := silenced_after_filter h fromHost'
  rw [← alike] at second
  exact first.symm.trans second

/-- Two runs of a machine whose hosts differ only in when and how they write the sound timer begin
each cycle in machines that are the same but for the sound timer. -/
theorem silenced_beforeCycle (m : Machine ρ) {host host' : Nat → List Action}
    (fromHost : ∀ k, ∀ a ∈ host k, a.fromHost) (fromHost' : ∀ k, ∀ a ∈ host' k, a.fromHost)
    (alike : ∀ k, (host k).filter (!·.setsSound) = (host' k).filter (!·.setsSound)) (k : Nat) :
    (m.beforeCycle host k).silenced = (m.beforeCycle host' k).silenced := by
  induction k with
  | zero => exact silenced_after rfl (fromHost 0) (fromHost' 0) (alike 0)
  | succ k ih =>
    obtain ⟨-, cycled⟩ := silenced_cycle ih
    exact silenced_after cycled (fromHost (k + 1)) (fromHost' (k + 1)) (alike (k + 1))

omit [ByteSource ρ] in
/-- Machines that are the same but for the sound timer agree on what a program works with. -/
theorem agrees_of_silenced {m n : Machine ρ} (h : m.silenced = n.silenced) : m.Agrees n := by
  rw [eq_within_of_silenced h]
  exact agrees_within m _

/-- A machine depends on its environment through its samples only.  Take two machines loaded with
the same program and two runs with arbitrary host actions between the cycles, in which every cycle
of the first run samples the same as the cycle of the second: then after every cycle the machines
agree on everything that a program works with, and the cycle fails in both runs for the same reason
or in neither.  Runs of one machine that differ only in when and how the host writes the sound
timer always agree in this way. -/
theorem replay_of_samples {program : List UInt8} {first : ρ} {second : σ} {m : Machine ρ}
    {n : Machine σ} (booted : boot program first = .ok m) (booted' : boot program second = .ok n)
    {host host' : Nat → List Action} (fromHost : ∀ k, ∀ a ∈ host k, a.fromHost)
    (fromHost' : ∀ k, ∀ a ∈ host' k, a.fromHost) :
    (∀ count, (∀ k < count, (m.beforeCycle host k).sample (m.beforeCycle host k).fetch =
        (n.beforeCycle host' k).sample (m.beforeCycle host k).fetch) →
      ∀ k < count,
        (m.beforeCycle host k).cycle.fault = (n.beforeCycle host' k).cycle.fault ∧
        (m.beforeCycle host k).cycle.machine.Agrees (n.beforeCycle host' k).cycle.machine) ∧
    ∀ louder : Nat → List Action, (∀ k, ∀ a ∈ louder k, a.fromHost) →
      (∀ k, (louder k).filter (!·.setsSound) = (host k).filter (!·.setsSound)) →
      ∀ k,
        (m.beforeCycle louder k).cycle.fault = (m.beforeCycle host k).cycle.fault ∧
        (m.beforeCycle louder k).cycle.machine.Agrees (m.beforeCycle host k).cycle.machine := by
  refine ⟨?_, ?_⟩
  · intro count samples k hk
    have fresh : m.Agrees n := by
      rw [(boot_eq_ok_iff.1 booted).2, (boot_eq_ok_iff.1 booted').2]
      exact ⟨rfl, rfl, rfl, rfl, rfl, rfl⟩
    have before := fresh.beforeCycle fromHost fromHost' fun j hj => samples j (Nat.lt_trans hj hk)
    exact before.cycle (samples k hk)
  · intro louder fromHost'' alike k
    have before := silenced_beforeCycle m fromHost'' fromHost alike k
    obtain ⟨fault, machine⟩ := silenced_cycle before
    exact ⟨fault, agrees_of_silenced machine⟩

/-- A program that masks a random byte, reads the delay timer, asks for a key and waits for one
runs alike with two sources that differ in the bits not kept, with timers that differ until the
delay timer is read, and on keypads that differ in the keys not asked for; and alike with a buzzer
that is turned on before every cycle. -/
theorem replay_of_masked_bytes :
    let program : List UInt8 := [0xC0, 0x0F, 0xF1, 0x07, 0xE0, 0x9E, 0x00, 0xE0, 0xF2, 0x0A]
    let m := fresh program (CyclicSource.ofPattern [0x12])
    let n := fresh program (CyclicSource.ofPattern [0xF2, 0x55])
    let host : Nat → List Action := fun k =>
      [[.setSound 9, .setDelay 5], [.setDelay 7], [.setKey 2 true], [.ticks 4]].getD k []
    let host' : Nat → List Action := fun k =>
      [[.ticks 3], [.setSound 1, .setDelay 9, .ticks 2], [.setKeypad (.ofKeys [2, 0xB])],
        [.setDelay 1]].getD k []
    let louder : Nat → List Action := fun k => .setSound 200 :: host k
    (∀ k < 4, (m.beforeCycle host k).sample (m.beforeCycle host k).fetch =
      (n.beforeCycle host' k).sample (m.beforeCycle host k).fetch) ∧
    (m.beforeCycle host 3).cycle.machine.Agrees (n.beforeCycle host' 3).cycle.machine ∧
    (n.beforeCycle host' 3).cycle.machine.reg 2 = 2 ∧
    (m.beforeCycle louder 3).cycle.machine.Agrees (m.beforeCycle host 3).cycle.machine := by
  intro program m n host host' louder
  have booted : boot program (CyclicSource.ofPattern [0x12]) = .ok m :=
    boot_eq_ok_iff.2 ⟨by decide, rfl⟩
  have booted' : boot program (CyclicSource.ofPattern [0xF2, 0x55]) = .ok n :=
    boot_eq_ok_iff.2 ⟨by decide, rfl⟩
  have fromHost : ∀ k, ∀ a ∈ host k, a.fromHost := by
    intro k
    rcases k with _ | _ | _ | _ | k <;> simp [host, Action.fromHost]
  have fromHost' : ∀ k, ∀ a ∈ host' k, a.fromHost := by
    intro k
    rcases k with _ | _ | _ | _ | k <;> simp [host', Action.fromHost]
  have samples : ∀ k < 4, (m.beforeCycle host k).sample (m.beforeCycle host k).fetch =
      (n.beforeCycle host' k).sample (m.beforeCycle host k).fetch := by
    decide +kernel
  have fromLouder : ∀ k, ∀ a ∈ louder k, a.fromHost := by
    intro k a ha
    rcases List.mem_cons.1 ha with rfl | earlier
    · rfl
    · exact fromHost k a earlier
  obtain ⟨alike, unheard⟩ := replay_of_samples booted booted' fromHost fromHost'
  obtain ⟨-, agrees⟩ := alike 4 samples 3 (by decide)
  obtain ⟨-, quiet⟩ := unheard louder fromLouder (fun _ => rfl) 3
  exact ⟨samples, agrees, by decide +kernel, quiet⟩

end Machine

end Chip8
