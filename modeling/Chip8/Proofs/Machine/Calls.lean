import Chip8.Proofs.Machine.Faults

/-!
# Calls and returns

The call stack of a machine works as a bounded last-in first-out list: through its view
`CallStack.live`, a call appends the address behind it, a return removes the last address and goes
there, and no other action touches the stack (`live_perform`).  Counting along a run, the depth is
the number of calls carried out less the number of returns (`depth_after`).

A call is pending while its return address lies on the stack on top of the addresses from before
it, which `CallPending` expresses by a list prefix.  One action keeps a call pending or is the
return from it (`CallPending.perform`), and a run that never comes back to the depth from before
the call keeps it pending (`CallPending.after`).  The main statement is
`call_return_discipline`.
-/

namespace Chip8

namespace Instruction

/-- Whether an instruction is a call. -/
def isCall : Instruction → Bool
  | call _ => true
  | _ => false

/-- Whether an instruction is a return. -/
def isReturn : Instruction → Bool
  | ret => true
  | _ => false

end Instruction

namespace CallStack

/-- The slots in use hold the addresses in use. -/
theorem getElem?_live {s : CallStack} {i : Nat} (used : i < s.depth) :
    s.live[i]? = s.slots[i]? := by
  rw [live, List.getElem?_take_of_lt used, Vector.getElem?_toList]

/-- If the addresses in use of one stack begin with those of another, its slots agree with those
that the other has in use. -/
theorem getElem?_slots_of_live_prefix {s t : CallStack} (h : s.live <+: t.live) {i : Nat}
    (used : i < s.depth) : t.slots[i]? = s.slots[i]? := by
  have depths : s.depth ≤ t.depth := by
    simpa using h.length_le
  rw [← getElem?_live used, ← getElem?_live (Nat.lt_of_lt_of_le used depths)]
  obtain ⟨above, split⟩ := h
  rw [← split, List.getElem?_append_left (by simpa using used)]

end CallStack

namespace Machine

variable {ρ : Type}

/-! ### Pending calls -/

/-- Whether the call that `m` is about to make is pending in `n`: the addresses in use in `n`
begin with those of `m`, and the address behind the call follows. -/
def CallPending (m n : Machine ρ) : Prop :=
  m.stack.live ++ [m.pc + 2] <+: n.stack.live

/-- A pending call makes the stack deeper than it was before the call. -/
theorem CallPending.depth_lt {m n : Machine ρ} (pending : CallPending m n) :
    m.stack.depth < n.stack.depth := by
  have length := pending.length_le
  rw [List.length_append, CallStack.length_live, CallStack.length_live] at length
  exact length

/-- While a call is pending, the slots from before it keep their values. -/
theorem CallPending.getElem?_slots {m n : Machine ρ} (pending : CallPending m n) {i : Nat}
    (used : i < m.stack.depth) : n.stack.slots[i]? = m.stack.slots[i]? :=
  CallStack.getElem?_slots_of_live_prefix ((List.prefix_append _ _).trans pending) used

/-- While a call is pending, the slot above those from before it holds the return address. -/
theorem CallPending.getElem?_slots_depth {m n : Machine ρ} (pending : CallPending m n) :
    n.stack.slots[m.stack.depth]? = some (m.pc + 2) := by
  rw [← CallStack.getElem?_live pending.depth_lt]
  obtain ⟨above, split⟩ := pending
  rw [← split, List.append_assoc, List.getElem?_append_right (by simp)]
  simp

/-! ### Effect of one action on the call stack -/

@[simp] theorem stack_skipIf (m : Machine ρ) (condition : Bool) :
    (m.skipIf condition).stack = m.stack := by
  unfold skipIf
  split <;> rfl

@[simp] theorem stack_awaitKey (m : Machine ρ) (x : Register) :
    (m.awaitKey x).stack = m.stack := by
  unfold awaitKey
  split <;> rfl

variable [ByteSource ρ]

/-- A return goes to the last of the addresses in use and removes it. -/
theorem live_execute_ret {m : Machine ρ} (h : (m.execute .ret).fault = none) :
    m.stack.live =
      (m.execute .ret).machine.stack.live ++ [(m.execute .ret).machine.pc] := by
  simp only [execute] at h ⊢
  cases popped : m.stack.pop? with
  | none => simp [popped] at h
  | some top => exact CallStack.live_pop? popped

/-- A call appends the program counter to the addresses in use. -/
theorem live_execute_call {m : Machine ρ} {target : UInt16}
    (h : (m.execute (.call target)).fault = none) :
    (m.execute (.call target)).machine.stack.live = m.stack.live ++ [m.pc] := by
  simp only [execute] at h ⊢
  cases pushed : m.stack.push? m.pc with
  | none => simp [pushed] at h
  | some deeper => exact CallStack.live_push? pushed

/-- An instruction other than a call and a return does not touch the call stack. -/
theorem stack_execute {m : Machine ρ} {i : Instruction} (call : i.isCall = false)
    (ret : i.isReturn = false) : (m.execute i).machine.stack = m.stack := by
  cases i with
  | call target => cases call
  | ret => cases ret
  | skipIfConst x value => exact stack_skipIf m _
  | skipUnlessConst x value => exact stack_skipIf m _
  | skipIfSame x y => exact stack_skipIf m _
  | skipUnlessSame x y => exact stack_skipIf m _
  | skipIfPressed x => exact stack_skipIf m _
  | skipUnlessPressed x => exact stack_skipIf m _
  | awaitKey x => exact stack_awaitKey m x
  | jumpOffset base =>
    simp only [execute]
    split <;> rfl
  | _ => rfl

/-- What an action does to the addresses in use: a call appends one, a return goes to the last and
removes it, and everything else leaves the call stack alone. -/
theorem live_perform (m : Machine ρ) (a : Action) :
    (∃ target address, m.carriedOut a = some (.call target) ∧
      (m.perform a).machine.stack.live = m.stack.live ++ [address]) ∨
    (m.carriedOut a = some .ret ∧
      m.stack.live = (m.perform a).machine.stack.live ++ [(m.perform a).machine.pc]) ∨
    ((∀ i ∈ m.carriedOut a, i.isCall = false ∧ i.isReturn = false) ∧
      (m.perform a).machine.stack = m.stack) := by
  cases carried : m.carriedOut a with
  | none =>
    obtain ⟨delay, sound, keypad, written⟩ := perform_of_carriedOut_eq_none carried
    refine Or.inr (Or.inr ⟨?_, by rw [written]⟩)
    intro i hi
    cases hi
  | some i =>
    -- the instruction starts from `m` or from `m.advance`, which have the same call stack
    obtain ⟨n, before, clean, executed⟩ := perform_of_carriedOut_eq_some carried
    have stack : n.stack = m.stack := by
      rcases before with rfl | rfl <;> rfl
    rw [executed, ← stack]
    cases call : i.isCall with
    | true =>
      obtain ⟨target, rfl⟩ : ∃ target, i = .call target := by
        cases i <;> simp_all [Instruction.isCall]
      exact Or.inl ⟨target, n.pc, rfl, live_execute_call clean⟩
    | false =>
      cases ret : i.isReturn with
      | true =>
        obtain rfl : i = .ret := by
          cases i <;> simp_all [Instruction.isReturn]
        exact Or.inr (Or.inl ⟨rfl, live_execute_ret clean⟩)
      | false =>
        refine Or.inr (Or.inr ⟨?_, stack_execute call ret⟩)
        intro j hj
        cases hj
        exact ⟨call, ret⟩

/-! ### Balance of calls and returns -/

/-- One action that carries out a call adds one to the depth, a return takes one away. -/
theorem depth_perform (m : Machine ρ) (a : Action) :
    (m.perform a).machine.stack.depth + (m.carriedOut a).toList.countP Instruction.isReturn =
      m.stack.depth + (m.carriedOut a).toList.countP Instruction.isCall := by
  rcases m.live_perform a with ⟨target, address, carried, live⟩ | ⟨carried, live⟩ |
    ⟨neither, stack⟩
  · have depth : (m.perform a).machine.stack.depth = m.stack.depth + 1 := by
      simpa using congrArg List.length live
    simp [carried, depth, Instruction.isCall, Instruction.isReturn]
  · have depth : m.stack.depth = (m.perform a).machine.stack.depth + 1 := by
      simpa using congrArg List.length live
    simp [carried, depth, Instruction.isCall, Instruction.isReturn]
  · rw [stack]
    cases carried : m.carriedOut a with
    | none => rfl
    | some i =>
      obtain ⟨call, ret⟩ := neither i carried
      simp [call, ret]

/-- Along a run the depth grows by the calls carried out and shrinks by the returns. -/
theorem depth_after (m : Machine ρ) (actions : List Action) :
    (m.after actions).stack.depth + (m.instructions actions).countP Instruction.isReturn =
      m.stack.depth + (m.instructions actions).countP Instruction.isCall := by
  induction actions generalizing m with
  | nil => rfl
  | cons a rest ih =>
    have first := m.depth_perform a
    have later := ih (m.perform a).machine
    rw [after_cons, instructions_cons, List.countP_append, List.countP_append]
    omega

/-! ### Keeping a call pending -/

/-- A call that is carried out is pending afterwards. -/
theorem callPending_cycle {m : Machine ρ} {target : UInt16}
    (carried : m.carriedOut .cycle = some (.call target)) : CallPending m m.cycle.machine := by
  obtain ⟨clean, fetched⟩ : m.cycle.fault = none ∧ m.fetch = .call target := by
    simpa [carriedOut] using carried
  have called : (m.advance.execute (.call target)).fault = none := by
    rwa [cycle_fault, fetched] at clean
  rw [CallPending, cycle_machine_of_fault_eq_none clean, fetched, live_execute_call called]
  exact List.prefix_rfl

/-- One action keeps a call pending, or it is the return from it. -/
theorem CallPending.perform {m n : Machine ρ} (pending : CallPending m n) (a : Action) :
    CallPending m (n.perform a).machine ∨
      (n.carriedOut a = some .ret ∧ (n.perform a).machine.pc = m.pc + 2 ∧
        (n.perform a).machine.stack.live = m.stack.live) := by
  rcases n.live_perform a with ⟨target, address, -, live⟩ | ⟨carried, live⟩ | ⟨-, stack⟩
  · left
    rw [CallPending, live]
    exact pending.trans (List.prefix_append _ _)
  -- a return takes away either the return address of the pending call or one above it
  · rw [CallPending, live, List.prefix_concat_iff] at pending
    rcases pending with top | below
    · obtain ⟨rest, address⟩ := List.append_inj' top rfl
      exact Or.inr ⟨carried, (List.singleton_inj.1 address).symm, rest.symm⟩
    · exact Or.inl below
  · left
    rwa [CallPending, stack]

/-- A run that never comes back to the depth from before a call keeps the call pending. -/
theorem CallPending.after {m n : Machine ρ} (pending : CallPending m n) {actions : List Action}
    (away : ∀ k ≤ actions.length, (n.after (actions.take k)).stack.depth ≠ m.stack.depth) :
    CallPending m (n.after actions) := by
  induction actions generalizing n with
  | nil => exact pending
  | cons a rest ih =>
    have first : CallPending m (n.perform a).machine := by
      rcases pending.perform a with kept | ⟨-, -, live⟩
      · exact kept
      · have back : (n.perform a).machine.stack.depth = m.stack.depth := by
          simpa using congrArg List.length live
        exact absurd back (by simpa using away 1 (by simp))
    refine ih first ?_
    intro k hk
    simpa using away (k + 1) (by simpa using hk)

/-- Calls and returns of a run match.  In every reachable machine the depth of the call stack is the
number of calls carried out less the number of returns, and at most sixteen.  After a call that a
cycle carries out, and as long as the stack does not come back to the depth from before it, the
slots in use before the call keep their values and the next slot holds the address behind the
call; and the first action that brings the depth back is a return, which continues at that address
with the same slots in use as before the call. -/
theorem call_return_discipline {program : List UInt8} {random : ρ} {start : Machine ρ}
    (booted : boot program random = .ok start) (earlier : List Action) :
    let m := start.after earlier
    m.stack.depth + (start.instructions earlier).countP Instruction.isReturn =
      (start.instructions earlier).countP Instruction.isCall ∧
    m.stack.depth ≤ 16 ∧
    ∀ target, m.carriedOut .cycle = some (.call target) → ∀ later : List Action,
      (∀ k ≤ later.length,
        (m.cycle.machine.after (later.take k)).stack.depth ≠ m.stack.depth) →
      let n := m.cycle.machine.after later
      (∀ i < m.stack.depth, n.stack.slots[i]? = m.stack.slots[i]?) ∧
      n.stack.slots[m.stack.depth]? = some (m.pc + 2) ∧
      ∀ last, (n.perform last).machine.stack.depth = m.stack.depth →
        n.carriedOut last = some .ret ∧ (last.ordinary → last = .cycle) ∧
        (n.perform last).machine.pc = m.pc + 2 ∧
        ∀ i < m.stack.depth, (n.perform last).machine.stack.slots[i]? = m.stack.slots[i]? := by
  intro m
  have fresh : start.stack.depth = 0 := by
    rw [(boot_eq_ok_iff.1 booted).2]
    rfl
  refine ⟨?_, m.stack.depth_le, ?_⟩
  · have balance := start.depth_after earlier
    rwa [fresh, Nat.zero_add] at balance
  intro target carried later away n
  have pending : CallPending m n := (callPending_cycle carried).after away
  refine ⟨fun i used => pending.getElem?_slots used, pending.getElem?_slots_depth, ?_⟩
  intro last back
  rcases pending.perform last with kept | ⟨returned, pc, live⟩
  · exact absurd back (Nat.ne_of_gt kept.depth_lt)
  · refine ⟨returned, ?_, pc, ?_⟩
    · intro ordinary
      rcases n.perform_cases last with cycle | ⟨i, rfl⟩ | ⟨-, nothing, -⟩
      · exact cycle
      · cases ordinary
      · rw [nothing] at returned
        cases returned
    · intro i used
      have same : m.stack.live <+: (n.perform last).machine.stack.live :=
        ⟨[], by rw [List.append_nil, live]⟩
      exact CallStack.getElem?_slots_of_live_prefix same used

/-- A program that calls a subroutine, which calls another one, comes back behind the first call
when the second return is carried out. -/
theorem return_from_nested_call :
    let program : List UInt8 :=
      [0x22, 0x06, 0x00, 0xE0, 0x12, 0x04, 0x22, 0x0A, 0x00, 0xEE, 0x00, 0xEE]
    let start := fresh program (CyclicSource.ofPattern [7])
    let later : List Action := [.cycle, .ticks 3, .cycle, .setKey 5 true]
    boot program (CyclicSource.ofPattern [7]) = .ok start ∧
    start.carriedOut .cycle = some (.call 0x206) ∧
    (∀ k ≤ later.length, (start.cycle.machine.after (later.take k)).stack.depth ≠ 0) ∧
    (start.cycle.machine.after later).stack.slots[0]? = some 0x202 ∧
    ((start.cycle.machine.after later).perform .cycle).machine.pc = 0x202 := by
  intro program start later
  have booted : boot program (CyclicSource.ofPattern [7]) = .ok start :=
    boot_eq_ok_iff.2 ⟨by decide, rfl⟩
  have called : start.carriedOut .cycle = some (.call 0x206) := by decide +kernel
  have away : ∀ k ≤ later.length,
      (start.cycle.machine.after (later.take k)).stack.depth ≠ 0 := by
    decide +kernel
  obtain ⟨-, -, calls⟩ := call_return_discipline booted []
  obtain ⟨-, address, returns⟩ := calls 0x206 called later away
  obtain ⟨-, -, pc, -⟩ := returns .cycle (by decide +kernel)
  exact ⟨booted, called, away, address, pc⟩

end Machine

end Chip8
