import Chip8.Proofs.Host.Calls

/-!
# Attempts at a cycle

A host attempts a cycle when the delay since its last attempt has passed.  This file proves that the
times of the attempts are the greedy selection, `spacedFrom`, from the times of the iterations that
do not quit: the first time that is at least the delay after the start, and then again and again the
next time that is at least the delay after the one selected before.  The clock may stand still or go
back, and an attempt that fails counts like any other.

So the attempts are at least the delay apart (`pairwise_spacedFrom`), and their number up to a time
is bounded (`length_spacedFrom_le`).  Without a delay a cycle is due at every time, and every
iteration that does not quit attempts one.  The main statement is `attempts_spaced`.
-/

namespace Chip8

/-! ### Greedy selection of times -/

/-- From a list of times select those that are at least `delay` after the one selected before, which
at first is `last`. -/
def spacedFrom (delay : Nat) (last : Int) : List Int → List Int
  | [] => []
  | time :: rest =>
    if last + delay ≤ time then time :: spacedFrom delay time rest
    else spacedFrom delay last rest

variable {delay : Nat}

/-- Every selected time is at least the delay after the one before the first. -/
theorem add_le_of_mem_spacedFrom {last time : Int} {times : List Int}
    (selected : time ∈ spacedFrom delay last times) : last + delay ≤ time := by
  induction times generalizing last with
  | nil => cases selected
  | cons first rest ih =>
    rw [spacedFrom] at selected
    split at selected
    · next late =>
      rcases List.mem_cons.1 selected with rfl | later
      · exact late
      · have := ih later
        omega
    · exact ih selected

/-- Selected times are at least the delay apart. -/
theorem pairwise_spacedFrom (last : Int) (times : List Int) :
    (spacedFrom delay last times).Pairwise fun s t : Int => s + delay ≤ t := by
  induction times generalizing last with
  | nil => exact List.Pairwise.nil
  | cons first rest ih =>
    rw [spacedFrom]
    split
    · exact List.Pairwise.cons (fun t ht => add_le_of_mem_spacedFrom ht) (ih first)
    · exact ih last

/-- Up to a time there is room for as many selected times as delays have passed. -/
theorem add_length_mul_le {last bound : Int} (begun : last ≤ bound) {times : List Int}
    (bounded : ∀ t ∈ times, t ≤ bound) :
    last + (spacedFrom delay last times).length * delay ≤ bound := by
  induction times generalizing last with
  | nil => simpa [spacedFrom] using begun
  | cons first rest ih =>
    have restBounded : ∀ t ∈ rest, t ≤ bound := fun t ht => bounded t (List.mem_cons_of_mem _ ht)
    rw [spacedFrom]
    split
    · next late =>
      have later := ih (bounded first List.mem_cons_self) restBounded
      rw [List.length_cons, Int.natCast_succ, Int.add_mul, Int.one_mul]
      omega
    · exact ih begun restBounded

/-- The number of times selected up to a time is at most the number of whole delays passed. -/
theorem length_spacedFrom_le (pos : 0 < delay) {start bound : Int} (begun : start ≤ bound)
    {times : List Int} (bounded : ∀ t ∈ times, t ≤ bound) :
    (spacedFrom delay start times).length ≤ elapsed start bound / delay := by
  have room : start + (spacedFrom delay start times).length * delay ≤ bound :=
    add_length_mul_le begun bounded
  rw [Nat.le_div_iff_mul_le pos]
  simp only [elapsed]
  omega

namespace Host

variable {ρ : Type} [ByteSource ρ]

/-! ### Attempts of a host -/

/-- The time of each call for a cycle in successive iterations, in order. -/
def attemptTimes (h : Host ρ) : List Moment → List Int
  | [] => []
  | m :: rest =>
    List.replicate ((h.calls m).count .cycle) m.now ++ (h.step m).host.attemptTimes rest

/-- The times at which an input device that is polled does not ask to quit. -/
def stayingTimes (moments : List Moment) : List Int :=
  (moments.filter (!·.poll.quit)).map Moment.now

theorem stayingTimes_cons_of_quit {m : Moment} (quit : m.poll.quit = true) (rest : List Moment) :
    stayingTimes (m :: rest) = stayingTimes rest := by
  simp [stayingTimes, quit]

theorem stayingTimes_cons_of_stays {m : Moment} (stays : m.poll.quit = false)
    (rest : List Moment) : stayingTimes (m :: rest) = m.now :: stayingTimes rest := by
  simp [stayingTimes, stays]

omit [ByteSource ρ] in
/-- With a positive delay, a cycle is due once the delay has passed since the last attempt. -/
theorem cycleDue_eq_true_iff {h : Host ρ} (pos : 0 < h.pace.cycleDelay) {now : Int} :
    h.cycleDue now = true ↔ h.lastCycle + h.pace.cycleDelay ≤ now := by
  have due : h.cycleDue now = true ↔ h.pace.cycleDelay ≤ elapsed h.lastCycle now :=
    decide_eq_true_iff
  rw [due, elapsed]
  omega

/-- With a positive delay the attempts are the greedy selection from the times of the iterations
that do not quit. -/
theorem attemptTimes_eq_spacedFrom {h : Host ρ} (pos : 0 < h.pace.cycleDelay)
    (moments : List Moment) :
    h.attemptTimes moments = spacedFrom h.pace.cycleDelay h.lastCycle (stayingTimes moments) := by
  induction moments generalizing h with
  | nil => rfl
  | cons m rest ih =>
    have later := ih (h := (h.step m).host) (by rwa [pace_step])
    rw [pace_step, lastCycle_step] at later
    rw [attemptTimes, count_cycle_calls, later, attempted_step]
    cases quit : m.poll.quit with
    | true =>
      rw [stayingTimes_cons_of_quit quit]
      simp
    | false =>
      rw [stayingTimes_cons_of_stays quit, spacedFrom]
      cases due : h.cycleDue m.now with
      | true =>
        have late := (cycleDue_eq_true_iff pos).1 due
        simp [late]
      | false =>
        have early : ¬ h.lastCycle + h.pace.cycleDelay ≤ m.now := by
          rw [← cycleDue_eq_true_iff pos, due]
          exact Bool.false_ne_true
        simp [early]

omit [ByteSource ρ] in
/-- Without a delay a cycle is always due. -/
theorem cycleDue_of_eq_zero {h : Host ρ} (zero : h.pace.cycleDelay = 0) (now : Int) :
    h.cycleDue now = true := by
  simp [cycleDue, zero]

/-- Without a delay an iteration calls for one cycle, unless it quits. -/
theorem count_cycle_calls_of_eq_zero {h : Host ρ} (zero : h.pace.cycleDelay = 0) (m : Moment) :
    (h.calls m).count .cycle = if m.poll.quit then 0 else 1 := by
  rw [count_cycle_calls, attempted_step, cycleDue_of_eq_zero zero]
  cases m.poll.quit <;> rfl

/-- Without a delay there is an attempt in every iteration that does not quit. -/
theorem attemptTimes_of_eq_zero {h : Host ρ} (zero : h.pace.cycleDelay = 0)
    (moments : List Moment) : h.attemptTimes moments = stayingTimes moments := by
  induction moments generalizing h with
  | nil => rfl
  | cons m rest ih =>
    rw [attemptTimes, count_cycle_calls_of_eq_zero zero, ih (by rwa [pace_step])]
    cases quit : m.poll.quit with
    | true =>
      rw [stayingTimes_cons_of_quit quit]
      rfl
    | false =>
      rw [stayingTimes_cons_of_stays quit]
      rfl

/-- An iteration calls for one cycle at most. -/
theorem count_cycle_calls_le_one (h : Host ρ) (m : Moment) : (h.calls m).count .cycle ≤ 1 := by
  rw [count_cycle_calls]
  cases (h.step m).attempted <;> decide

/-- With a positive delay the time of the last attempt does not go back. -/
theorem lastCycle_le_lastCycle_step {h : Host ρ} (pos : 0 < h.pace.cycleDelay) (m : Moment) :
    h.lastCycle ≤ (h.step m).host.lastCycle := by
  rw [lastCycle_step]
  cases attempted : (h.step m).attempted with
  | false => exact Int.le_refl _
  | true =>
    rw [attempted_step, Bool.and_eq_true] at attempted
    have due := (cycleDue_eq_true_iff pos).1 attempted.2
    rw [if_pos rfl]
    omega

/-- Cycles are paced by the delay.  Every iteration makes its calls one after the other until it
ends, and attempts at most one cycle.  If the delay is positive, the attempts in any succession of
iterations, at times in any order, are the greedy selection from the times of those that do not
quit, whether they succeed or fail; they are at least the delay apart and their times increase, no
more of them are made up to a time than delays have passed since the start, and the time of the last
attempt never goes back.  Without a delay every iteration that does not quit attempts a cycle. -/
theorem attempts_spaced {pace : Pace} (pos : 0 < pace.timerPeriod) (machine : Machine ρ)
    (start : Int) (moments : List Moment) :
    let first := startingAt machine pace start
    let h := first.after moments
    let attempts := first.attemptTimes moments
    (∀ m calls h' e, h.Proceeds m .polling calls h' e ↔
      calls = h.calls m ∧ h' = (h.step m).host ∧ e = (h.step m).ending) ∧
    (∀ m, (h.calls m).count .cycle ≤ 1) ∧
    (0 < pace.cycleDelay →
      attempts = spacedFrom pace.cycleDelay start (stayingTimes moments) ∧
      attempts.Pairwise (fun s t : Int => s + pace.cycleDelay ≤ t ∧ s < t) ∧
      (∀ latest, start ≤ latest → (∀ m ∈ moments, m.now ≤ latest) →
        attempts.length ≤ elapsed start latest / pace.cycleDelay) ∧
      ∀ m, h.lastCycle ≤ (h.step m).host.lastCycle) ∧
    (pace.cycleDelay = 0 →
      attempts = stayingTimes moments ∧
      ∀ m, (h.calls m).count .cycle = if m.poll.quit then 0 else 1) := by
  intro first h attempts
  have samePace : h.pace = pace := pace_after first moments
  have posNow : 0 < h.pace.timerPeriod := by rwa [samePace]
  refine ⟨fun m calls h' e => proceeds_iff posNow, h.count_cycle_calls_le_one, ?_, ?_⟩
  · intro delayed
    have greedy : attempts = spacedFrom pace.cycleDelay start (stayingTimes moments) :=
      attemptTimes_eq_spacedFrom (h := first) delayed moments
    refine ⟨greedy, ?_, ?_, fun m => lastCycle_le_lastCycle_step (by rwa [samePace]) m⟩
    · rw [greedy]
      refine (pairwise_spacedFrom start _).imp ?_
      intro s t apart
      exact ⟨apart, by omega⟩
    · intro latest begun bounded
      rw [greedy]
      refine length_spacedFrom_le delayed begun ?_
      intro t mem
      obtain ⟨m, stays, rfl⟩ := List.mem_map.1 mem
      exact bounded m (List.mem_filter.1 stays).1
  · intro zero
    exact ⟨attemptTimes_of_eq_zero (h := first) zero moments,
      fun m => count_cycle_calls_of_eq_zero (by rw [samePace]; exact zero) m⟩

/-- A cycle that fails is an attempt too, and a clock that goes back brings none; without a delay
it brings one at once. -/
theorem attempts_spaced_of_failing_cycles :
    let paced : Pace := { cycleDelay := 10 }
    let hurried : Pace := { cycleDelay := 0 }
    let machine := Machine.fresh [0x00, 0xEE] (CyclicSource.ofPattern [7])
    let moments : List Moment :=
      [{ now := 109 }, { now := 113 }, { now := 122 }, { now := 104 },
        { now := 130, poll := { quit := true } }, { now := 131 }]
    0 < paced.timerPeriod ∧ 0 < hurried.timerPeriod ∧
    (startingAt machine paced 100).attemptTimes moments = [113, 131] ∧ 2 ≤ 31 / 10 ∧
    (startingAt machine hurried 100).attemptTimes moments = [109, 113, 122, 104, 131] := by
  intro paced hurried machine moments
  have pos : 0 < paced.timerPeriod := by decide
  obtain ⟨-, -, whenPaced, -⟩ := attempts_spaced pos machine 100 moments
  obtain ⟨greedy, -, room, -⟩ := whenPaced (by decide)
  have posHurried : 0 < hurried.timerPeriod := by decide
  obtain ⟨-, -, -, whenHurried⟩ := attempts_spaced posHurried machine 100 moments
  obtain ⟨all, -⟩ := whenHurried rfl
  have selected : (startingAt machine paced 100).attemptTimes moments = [113, 131] :=
    greedy.trans (by decide)
  have bound := room 131 (by decide) (by decide)
  rw [selected] at bound
  exact ⟨pos, posHurried, selected, bound, all.trans (by decide)⟩

end Host

end Chip8
