import Chip8.Proofs.Host.Calls

/-!
# Whether an iteration returns

An iteration of the host loop ends with a loop of its own, in which the timers are counted down
once in each turn for as long as a period has elapsed since the time up to which they are counted.
`Host.turn?` is one turn, and `Host.turns?` the host after a number of turns, if the loop gets so
far.  A turn moves that time by one period, so the elapsed time is the measure that makes the loop
end: `turns?_eq` says that it gets as far as there are whole periods in it.  With the period zero a
turn leaves the measure as it is, and the loop makes every number of turns.

`proceeds_counting_iff` ties the turns to the calls of an iteration.  An iteration gets to the loop
unless it quits, its cycle fails or its frame is refused (`Host.GetsToCount`).  The main statement
is `returns_iff_positive_period`: the iterations that return are those with a positive period and
those that do not get to the loop, whatever the delay between cycles.
-/

namespace Chip8.Host

variable {ρ : Type}

/-! ### Turns of the loop -/

/-- One turn of the timer loop at time `now`, if a period has elapsed. -/
def turn? (h : Host ρ) (now : Int) : Option (Host ρ) :=
  if h.pace.timerPeriod ≤ elapsed h.lastTick now then
    some { h with machine := h.machine.tick, lastTick := h.lastTick + h.pace.timerPeriod }
  else none

/-- The host after a number of turns of the timer loop, if the loop makes so many. -/
def turns? (h : Host ρ) (now : Int) : Nat → Option (Host ρ)
  | 0 => some h
  | turns + 1 => (h.turn? now).bind fun turned => turned.turns? now turns

@[simp] theorem turns?_zero (h : Host ρ) (now : Int) : h.turns? now 0 = some h := rfl

theorem turns?_succ (h : Host ρ) (now : Int) (turns : Nat) :
    h.turns? now (turns + 1) = (h.turn? now).bind fun turned => turned.turns? now turns := rfl

/-- The loop is left at the first turn for which no period has elapsed. -/
theorem turn?_eq_none_iff {h : Host ρ} {now : Int} :
    h.turn? now = none ↔ elapsed h.lastTick now < h.pace.timerPeriod := by
  unfold turn?
  split
  · next due => simp [Nat.not_lt.2 due]
  · next early => simp [Nat.lt_of_not_le early]

/-- The loop makes as many turns as there are periods in the time that has elapsed, and each turn
counts the timers down once. -/
theorem turns?_eq (h : Host ρ) (now : Int) (turns : Nat) :
    h.turns? now turns =
      if turns * h.pace.timerPeriod ≤ elapsed h.lastTick now then some (h.counted turns)
      else none := by
  induction turns generalizing h with
  | zero => simp
  | succ turns ih =>
    rw [turns?_succ]
    unfold turn?
    split
    · next due =>
      -- the turn takes one period from the elapsed time
      have measure : turns * h.pace.timerPeriod ≤ elapsed h.lastTick now - h.pace.timerPeriod ↔
          (turns + 1) * h.pace.timerPeriod ≤ elapsed h.lastTick now := by
        rw [Nat.succ_mul]
        omega
      simp only [Option.bind_some, ih, elapsed_add, counted_succ, measure]
    · next early =>
      have more : h.pace.timerPeriod ≤ (turns + 1) * h.pace.timerPeriod :=
        Nat.le_mul_of_pos_left _ (Nat.succ_pos turns)
      rw [if_neg (by omega)]
      rfl

/-- The loop ends exactly if the period is positive. -/
theorem exists_turns?_eq_none_iff (h : Host ρ) (now : Int) :
    (∃ turns, h.turns? now turns = none) ↔ 0 < h.pace.timerPeriod := by
  constructor
  · rintro ⟨turns, left⟩
    refine Nat.pos_of_ne_zero fun zero => ?_
    rw [turns?_eq, zero, Nat.mul_zero, if_pos (Nat.zero_le _)] at left
    cases left
  · intro pos
    have beyond : elapsed h.lastTick now + 1 ≤
        (elapsed h.lastTick now + 1) * h.pace.timerPeriod := Nat.le_mul_of_pos_right _ pos
    exact ⟨elapsed h.lastTick now + 1, by rw [turns?_eq, if_neg (by omega)]⟩

variable [ByteSource ρ]

/-- An iteration that has come to the timer loop returns after the turns of the loop, if there is a
last one, and has counted the timers once in each. -/
theorem proceeds_counting_iff {m : Moment} {h h' : Host ρ} {calls : List HostCall} {e : Ending} :
    h.Proceeds m .counting calls h' e ↔
      ∃ turns, calls = List.replicate turns .tick ∧ h.turns? m.now turns = some h' ∧
        h'.turn? m.now = none ∧ e = .resumed := by
  constructor
  · intro course
    generalize stage : Stage.counting = s at course
    induction course with
    | tick due _ ih =>
      obtain ⟨turns, rfl, made, left, rfl⟩ := ih rfl
      refine ⟨turns + 1, rfl, ?_, left, rfl⟩
      rw [turns?_succ, turn?, if_pos due]
      exact made
    | resumed early => exact ⟨0, rfl, rfl, turn?_eq_none_iff.2 early, rfl⟩
    | _ => cases stage
  · rintro ⟨turns, rfl, made, left, rfl⟩
    induction turns generalizing h with
    | zero =>
      obtain rfl := Option.some.inj made
      exact .resumed (turn?_eq_none_iff.1 left)
    | succ turns ih =>
      obtain ⟨turned, turn, made⟩ := Option.bind_eq_some_iff.1 made
      unfold turn? at turn
      split at turn
      · next due =>
        obtain rfl := Option.some.inj turn
        exact .tick due (ih made)
      · cases turn

/-- An iteration that has come to the timer loop returns exactly if the period is positive. -/
theorem exists_proceeds_counting_iff (h : Host ρ) (m : Moment) :
    (∃ calls h' e, h.Proceeds m .counting calls h' e) ↔ 0 < h.pace.timerPeriod := by
  constructor
  · rintro ⟨calls, h', e, course⟩
    obtain ⟨turns, -, made, left, -⟩ := proceeds_counting_iff.1 course
    rw [turns?_eq] at made
    split at made
    · obtain rfl := Option.some.inj made
      have early : elapsed (h.counted turns).lastTick m.now < h.pace.timerPeriod :=
        turn?_eq_none_iff.1 left
      exact Nat.zero_lt_of_lt early
    · cases made
  · intro pos
    exact ⟨_, _, _, proceeds_counting pos m⟩

/-! ### The way to the loop -/

/-- Whether an iteration gets to the timer loop: it does not quit, and if it attempts a cycle, the
cycle succeeds and its frame is accepted. -/
structure GetsToCount (h : Host ρ) (m : Moment) : Prop where
  stays : m.poll.quit = false
  clean : h.cycleDue m.now = true → (h.accept m.poll).machine.cycle.fault = none
  accepted : h.cycleDue m.now = true → m.refusal = none

/-- The host with which an iteration gets to the timer loop. -/
def atCount (h : Host ρ) (m : Moment) : Host ρ :=
  if h.cycleDue m.now then (h.accept m.poll).cycled m.now else h.accept m.poll

@[simp] theorem pace_atCount (h : Host ρ) (m : Moment) : (h.atCount m).pace = h.pace := by
  unfold atCount
  split <;> simp

@[simp] theorem lastTick_atCount (h : Host ρ) (m : Moment) :
    (h.atCount m).lastTick = h.lastTick := by
  unfold atCount
  split <;> simp

/-- An iteration that gets to the timer loop returns exactly if the loop does. -/
theorem exists_proceeds_iff_of_getsToCount {h : Host ρ} {m : Moment} (gets : h.GetsToCount m) :
    (∃ calls h' e, h.Proceeds m .polling calls h' e) ↔
      ∃ calls h' e, (h.atCount m).Proceeds m .counting calls h' e := by
  have due : (h.accept m.poll).pace.cycleDelay ≤ elapsed (h.accept m.poll).lastCycle m.now ↔
      h.cycleDue m.now = true := by
    simp [cycleDue]
  constructor
  · rintro ⟨calls, h', e, course⟩
    cases course with
    | quit asked => rw [gets.stays] at asked; cases asked
    | polled _ paced =>
      unfold atCount
      cases paced with
      | early early counts =>
        rw [if_neg fun is => Nat.not_le.2 early (due.2 is)]
        exact ⟨_, _, _, counts⟩
      | fault is failed => rw [gets.clean (due.1 is)] at failed; cases failed
      | cycle is _ shown =>
        rw [if_pos (due.1 is)]
        cases shown with
        | refused refusal => rw [gets.accepted (due.1 is)] at refusal; cases refusal
        | presented _ counts => exact ⟨_, _, _, counts⟩
  · rintro ⟨calls, h', e, counts⟩
    unfold atCount at counts
    split at counts
    · next is =>
      have shown := Proceeds.presented (gets.accepted is) counts
      exact ⟨_, _, _, .polled gets.stays (.cycle (due.2 is) (gets.clean is) shown)⟩
    · next is =>
      have early := Nat.lt_of_not_le fun passed => is (due.1 passed)
      exact ⟨_, _, _, .polled gets.stays (.early early counts)⟩

/-- An iteration that does not get to the timer loop returns, whatever the period. -/
theorem exists_proceeds_of_not_getsToCount {h : Host ρ} {m : Moment}
    (stops : ¬ h.GetsToCount m) : ∃ calls h' e, h.Proceeds m .polling calls h' e := by
  cases quit : m.poll.quit with
  | true => exact ⟨_, _, _, .quit quit⟩
  | false =>
    have isDue : h.cycleDue m.now = true := by
      refine Bool.of_not_eq_false fun early => stops ⟨quit, ?_, ?_⟩ <;> simp [early]
    have due : (h.accept m.poll).pace.cycleDelay ≤
        elapsed (h.accept m.poll).lastCycle m.now := by
      simpa [cycleDue] using isDue
    cases fault : (h.accept m.poll).machine.cycle.fault with
    | some f => exact ⟨_, _, _, .polled quit (.fault due fault)⟩
    | none =>
      cases refusal : m.refusal with
      | some cause => exact ⟨_, _, _, .polled quit (.cycle due fault (.refused refusal))⟩
      | none => exact absurd ⟨quit, fun _ => fault, fun _ => refusal⟩ stops

/-- An iteration returns exactly if its period is positive or it does not get to the timer loop. -/
theorem exists_proceeds_iff (h : Host ρ) (m : Moment) :
    (∃ calls h' e, h.Proceeds m .polling calls h' e) ↔
      (h.GetsToCount m → 0 < h.pace.timerPeriod) := by
  by_cases gets : h.GetsToCount m
  · rw [exists_proceeds_iff_of_getsToCount gets, exists_proceeds_counting_iff, pace_atCount]
    simp [gets]
  · simp [gets, exists_proceeds_of_not_getsToCount gets]

omit [ByteSource ρ] in
/-- Counting the timers is endless exactly if the period is zero. -/
theorem ending_countTimers_eq_endless_iff {h : Host ρ} {now : Int} :
    (h.countTimers now).ending = .endless ↔ h.pace.timerPeriod = 0 := by
  unfold countTimers ticksDue
  split
  · next count due =>
    simp only [reduceCtorEq, false_iff]
    rintro zero
    simp [zero] at due
  · next due => simpa using due

/-- The ending of an iteration is endless exactly if the iteration does not return. -/
theorem ending_step_eq_endless_iff (h : Host ρ) (m : Moment) :
    (h.step m).ending = .endless ↔ h.GetsToCount m ∧ h.pace.timerPeriod = 0 := by
  have gets : h.GetsToCount m ↔ m.poll.quit = false ∧ (h.cycleDue m.now = true →
      (h.accept m.poll).machine.cycle.fault = none ∧ m.refusal = none) :=
    ⟨fun g => ⟨g.stays, fun is => ⟨g.clean is, g.accepted is⟩⟩,
      fun ⟨stays, rest⟩ => ⟨stays, fun is => (rest is).1, fun is => (rest is).2⟩⟩
  rw [gets]
  rcases h.step_cases m with ⟨quit, i⟩ | ⟨stays, due, f, fault, i⟩ |
    ⟨stays, due, clean, cause, refusal, i⟩ | ⟨stays, due, clean, accepted, i⟩ | ⟨stays, early, i⟩
  · simp [i, quit]
  · simp [-Machine.cycle_fault, i, due, fault]
  · simp [i, due, refusal]
  · simp [-Machine.cycle_fault, i, stays, clean, accepted, ending_countTimers_eq_endless_iff]
  · simp [i, stays, early, ending_countTimers_eq_endless_iff]

/-- The timer loop ends exactly if the period is positive: it makes as many turns as there are
periods in the time that has elapsed, and with the period zero it makes every number of turns.  An
iteration returns exactly if its period is positive or it does not get to the loop, whatever the
delay between cycles, the poll and the time, and its ending is endless exactly if it does not
return. -/
theorem returns_iff_positive_period (h : Host ρ) (m : Moment) :
    (∀ turns, (h.atCount m).turns? m.now turns =
      if turns * h.pace.timerPeriod ≤ elapsed h.lastTick m.now then
        some ((h.atCount m).counted turns)
      else none) ∧
    ((∃ turns, (h.atCount m).turns? m.now turns = none) ↔ 0 < h.pace.timerPeriod) ∧
    ((∃ calls h' e, h.Proceeds m .polling calls h' e) ↔
      (h.GetsToCount m → 0 < h.pace.timerPeriod)) ∧
    ((h.step m).ending = .endless ↔ ¬ ∃ calls h' e, h.Proceeds m .polling calls h' e) := by
  refine ⟨fun turns => ?_, ?_, h.exists_proceeds_iff m, ?_⟩
  · simpa using (h.atCount m).turns?_eq m.now turns
  · simpa using (h.atCount m).exists_turns?_eq_none_iff m.now
  · rw [ending_step_eq_endless_iff, exists_proceeds_iff, Classical.not_imp, Nat.not_lt,
      Nat.le_zero]

/-- Fifty milliseconds after its start a host without a delay between cycles makes three turns of
the timer loop, and returns. -/
theorem returns_iff_positive_period_of_late_clock :
    let h : Host CyclicSource :=
      .startingAt (.fresh [0x12, 0x00] (.ofPattern [0])) { cycleDelay := 0 } 0
    let m : Moment := { now := 50000000 }
    (h.atCount m).turns? m.now 3 = some ((h.atCount m).counted 3) ∧
    (h.atCount m).turns? m.now 4 = none ∧
    ∃ calls h' e, h.Proceeds m .polling calls h' e := by
  intro h m
  obtain ⟨loop, -, returns, -⟩ := returns_iff_positive_period h m
  refine ⟨?_, ?_, ?_⟩
  · rw [loop, if_pos (by decide)]
  · rw [loop, if_neg (by decide)]
  · exact returns.2 fun _ => by decide

/-- A host whose delays are both zero, with a program that jumps to its own beginning.  Its first
iteration makes every number of turns of the timer loop, and never returns. -/
theorem never_returns_of_zero_period :
    let h : Host CyclicSource :=
      .startingAt (.fresh [0x12, 0x00] (.ofPattern [0])) { cycleDelay := 0, timerPeriod := 0 } 0
    let m : Moment := { now := 0 }
    (∀ turns, (h.atCount m).turns? m.now turns ≠ none) ∧
    ¬ ∃ calls h' e, h.Proceeds m .polling calls h' e := by
  intro h m
  have gets : h.GetsToCount m :=
    { stays := rfl, clean := fun _ => by decide +kernel, accepted := fun _ => rfl }
  refine ⟨fun turns left => ?_, ?_⟩
  · exact Nat.lt_irrefl 0 (((h.atCount m).exists_turns?_eq_none_iff m.now).1 ⟨turns, left⟩)
  · rw [exists_proceeds_iff]
    intro returns
    exact Nat.lt_irrefl 0 (returns gets)

end Chip8.Host
