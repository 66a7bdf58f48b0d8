import Chip8.Proofs.Host.Calls

/-!
# Counting the timers

A host owes its machine one count of the timers for each whole period since its start.  Iterations
that quit or fail make no counts, and the clock may go back.  This file proves that counts are
nevertheless neither lost nor made twice: after any succession of iterations their total number is
the largest number of whole periods that an iteration which resumed has seen, and the time of the
last count is as many periods behind the start.  The main statement is `ticks_exact`.

The invariant of a run is that the last count was a whole number of periods after the start, and
`add_count_callsDuring` carries it through a succession of iterations.  An iteration that resumes
makes the counts between that number and the number it sees, if the latter is larger
(`add_ticks_step`).  So it makes up for every iteration at no later time that left counts out
(`ticksOwed_le_count_add_ticks`).  An iteration at an earlier time need not, even if it resumes:
`counts_left_out_of_clock_set_back` has a clock that goes back behind an iteration that quits.
-/

namespace Chip8.Host

variable {ρ : Type} [ByteSource ρ]

/-- The calls of successive iterations, in order. -/
def callsDuring (h : Host ρ) : List Moment → List HostCall
  | [] => []
  | m :: rest => h.calls m ++ (h.step m).host.callsDuring rest

/-- The numbers of whole periods since `start` that have passed at the moments, not before
`start`, whose iterations resume. -/
def periodsSeen (h : Host ρ) (start : Int) (moments : List Moment) : List Nat :=
  ((moments.zip (h.iterations moments)).filter fun (m, i) =>
    i.ending = .resumed ∧ start ≤ m.now).map fun (m, _) => elapsed start m.now / h.pace.timerPeriod

omit [ByteSource ρ] in
/-- If the last count was `n` periods after the start, all other periods that have passed since the
start are owed. -/
theorem ticksOwed_eq_sub {h : Host ρ} {start : Int} {n : Nat}
    (last : h.lastTick = start + n * h.pace.timerPeriod) (now : Int) :
    h.ticksOwed now = elapsed start now / h.pace.timerPeriod - n := by
  rw [ticksOwed, last, ← Int.natCast_mul, elapsed_add, Nat.mul_comm, Nat.sub_mul_div]

/-- If the last count was `n` periods after the start, an iteration that resumes brings the number
of counts to that of the periods passed, unless it is as large already. -/
theorem add_ticks_step {h : Host ρ} (pos : 0 < h.pace.timerPeriod) {start : Int} {n : Nat}
    (last : h.lastTick = start + n * h.pace.timerPeriod) {m : Moment}
    (resumed : (h.step m).ending = .resumed) :
    n + (h.step m).ticks = max n (elapsed start m.now / h.pace.timerPeriod) := by
  have owed : (h.step m).ticks = elapsed start m.now / h.pace.timerPeriod - n := by
    rw [ticks_step pos, if_pos resumed, ticksOwed_eq_sub last]
  omega

/-- An iteration that does not resume makes no count. -/
theorem ticks_step_of_ne_resumed {h : Host ρ} (pos : 0 < h.pace.timerPeriod) {m : Moment}
    (ended : (h.step m).ending ≠ .resumed) : (h.step m).ticks = 0 := by
  rw [ticks_step pos, if_neg ended]

/-- The first of several iterations puts in front the periods that it sees, if it resumes at a time
not before the start. -/
theorem periodsSeen_cons (h : Host ρ) (start : Int) (m : Moment) (rest : List Moment) :
    h.periodsSeen start (m :: rest) =
      (if (h.step m).ending = .resumed ∧ start ≤ m.now then
        [elapsed start m.now / h.pace.timerPeriod] else []) ++
      (h.step m).host.periodsSeen start rest := by
  simp only [periodsSeen, iterations_cons, List.zip_cons_cons, List.filter_cons, pace_step]
  split <;> simp_all

/-- If the last count was `n` periods after the start, then after some iterations `n` and the counts
they made come to the largest of `n` and the numbers of periods seen. -/
theorem add_count_callsDuring {h : Host ρ} (pos : 0 < h.pace.timerPeriod) {start : Int} {n : Nat}
    (last : h.lastTick = start + n * h.pace.timerPeriod) (moments : List Moment) :
    n + (h.callsDuring moments).count .tick = (h.periodsSeen start moments).foldl max n ∧
      (h.after moments).lastTick =
        start + ((n + (h.callsDuring moments).count .tick : Nat) : Int) * h.pace.timerPeriod := by
  induction moments generalizing h n with
  | nil => exact ⟨rfl, by simpa [callsDuring] using last⟩
  | cons m rest ih =>
    have moved : (h.step m).host.lastTick =
        start + ((n + (h.step m).ticks : Nat) : Int) * (h.step m).host.pace.timerPeriod := by
      rw [lastTick_step pos, last, pace_step, Int.natCast_add, Int.add_mul]
      omega
    have later := ih (by rwa [pace_step]) moved
    have count : n + (h.callsDuring (m :: rest)).count .tick =
        n + (h.step m).ticks + ((h.step m).host.callsDuring rest).count .tick := by
      rw [callsDuring, List.count_append, count_tick_calls]
      omega
    have seen : (h.periodsSeen start (m :: rest)).foldl max n =
        ((h.step m).host.periodsSeen start rest).foldl max (n + (h.step m).ticks) := by
      rw [periodsSeen_cons, List.foldl_append]
      congr 1
      by_cases resumed : (h.step m).ending = .resumed
      · rw [add_ticks_step pos last resumed]
        by_cases started : start ≤ m.now
        · rw [if_pos ⟨resumed, started⟩]
          rfl
        · have none : elapsed start m.now = 0 := by
            simp only [elapsed]
            omega
          rw [if_neg (fun both => started both.2), none, Nat.zero_div, Nat.max_zero]
          rfl
      · rw [if_neg (fun both => resumed both.1), ticks_step_of_ne_resumed pos resumed]
        rfl
    rw [count, seen, after_cons, ← pace_step h m]
    exact later

/-- If the last count was `n` periods after the start, then after some iterations and one that
resumes, `n` and the counts they made come at least to the periods passed at any time before the
last of them. -/
theorem le_add_count_add_ticks {h : Host ρ} (pos : 0 < h.pace.timerPeriod) {start : Int} {n : Nat}
    (last : h.lastTick = start + n * h.pace.timerPeriod) (later : List Moment) {m : Moment}
    (resumed : ((h.after later).step m).ending = .resumed) {time : Int} (passed : time ≤ m.now) :
    elapsed start time / h.pace.timerPeriod ≤
      n + (h.callsDuring later).count .tick + ((h.after later).step m).ticks := by
  obtain ⟨-, lastLater⟩ := add_count_callsDuring pos last later
  rw [← pace_after h later] at pos lastLater ⊢
  rw [add_ticks_step pos lastLater resumed]
  exact Nat.le_trans (Nat.div_le_div_right (elapsed_le_elapsed passed)) (Nat.le_max_right _ _)

/-- The counts that an iteration leaves out because it does not resume have been made when a later
iteration ends that resumes at a time not before its own. -/
theorem ticksOwed_le_count_add_ticks {h : Host ρ} (pos : 0 < h.pace.timerPeriod) {start : Int}
    {n : Nat} (last : h.lastTick = start + n * h.pace.timerPeriod) {skipped : Moment}
    (ended : (h.step skipped).ending ≠ .resumed) (later : List Moment) {m : Moment}
    (resumed : (((h.step skipped).host.after later).step m).ending = .resumed)
    (inTime : skipped.now ≤ m.now) :
    h.ticksOwed skipped.now ≤ ((h.step skipped).host.callsDuring later).count .tick +
      (((h.step skipped).host.after later).step m).ticks := by
  have none : (h.step skipped).ticks = 0 := ticks_step_of_ne_resumed pos ended
  have unmoved : (h.step skipped).host.lastTick =
      start + n * (h.step skipped).host.pace.timerPeriod := by
    rw [lastTick_step pos, none, pace_step, last]
    simp
  have made := le_add_count_add_ticks (by rwa [pace_step]) unmoved later resumed inTime
  rw [pace_step] at made
  rw [ticksOwed_eq_sub last]
  omega

/-- The timers are counted exactly once for every period.  After any succession of iterations, at
times in any order, the number of counts made is the largest number of whole periods since the start
that an iteration which resumed has seen, zero if there was none, and the last count is as many
periods after the start.  The next iteration makes its calls one after the other until it ends, and
its counts stand behind all other calls; it makes none if it does not resume.  If it resumes, the
counts left out by an iteration before it at a time not after its own have been made when it ends:
what was owed then is at most what the iterations since, this one included, have made. -/
theorem ticks_exact {pace : Pace} (pos : 0 < pace.timerPeriod) (machine : Machine ρ) (start : Int)
    (moments : List Moment) :
    let first := startingAt machine pace start
    let h := first.after moments
    let total := (first.callsDuring moments).count .tick
    total = (first.periodsSeen start moments).foldl max 0 ∧
    h.lastTick = start + total * pace.timerPeriod ∧
    ∀ m : Moment,
      (∀ calls h' e, h.Proceeds m .polling calls h' e ↔
        calls = h.calls m ∧ h' = (h.step m).host ∧ e = (h.step m).ending) ∧
      (∃ before, .tick ∉ before ∧ h.calls m = before ++ List.replicate (h.step m).ticks .tick) ∧
      ((h.step m).ending ≠ .resumed → (h.step m).ticks = 0) ∧
      ((h.step m).ending = .resumed →
        total + (h.step m).ticks = max total (elapsed start m.now / pace.timerPeriod) ∧
        ∀ earlier skipped later, moments = earlier ++ skipped :: later →
          ((first.after earlier).step skipped).ending ≠ .resumed → skipped.now ≤ m.now →
          (first.after earlier).ticksOwed skipped.now ≤
            (((first.after earlier).step skipped).host.callsDuring later).count .tick +
              (h.step m).ticks) := by
  intro first h total
  have fresh : first.lastTick = start + ((0 : Nat) : Int) * first.pace.timerPeriod := by
    simp [first, startingAt]
  have counted : ∀ moments : List Moment,
      (first.callsDuring moments).count .tick = (first.periodsSeen start moments).foldl max 0 ∧
        (first.after moments).lastTick =
          start + (first.callsDuring moments).count .tick * pace.timerPeriod := by
    intro moments
    simpa [first, startingAt] using add_count_callsDuring pos fresh moments
  have samePace : ∀ moments, (first.after moments).pace = pace := pace_after first
  have posAfter : ∀ moments, 0 < (first.after moments).pace.timerPeriod := by
    intro moments
    rwa [samePace]
  obtain ⟨seen, last⟩ := counted moments
  refine ⟨seen, last, ?_⟩
  intro m
  refine ⟨fun calls h' e => proceeds_iff (posAfter moments), h.calls_eq_append m,
    ticks_step_of_ne_resumed (posAfter moments), ?_⟩
  intro resumed
  constructor
  · have lastNow : h.lastTick = start + total * h.pace.timerPeriod := by
      rw [samePace]
      exact last
    rw [← samePace moments]
    exact add_ticks_step (posAfter moments) lastNow resumed
  · rintro earlier skipped later rfl ended inTime
    have split : h = ((first.after earlier).step skipped).host.after later :=
      first.after_append earlier (skipped :: later)
    have lastBefore : (first.after earlier).lastTick =
        start + (first.callsDuring earlier).count .tick *
          (first.after earlier).pace.timerPeriod := by
      rw [samePace]
      exact (counted earlier).2
    rw [split] at resumed ⊢
    exact ticksOwed_le_count_add_ticks (posAfter earlier) lastBefore ended later resumed inTime

/-- Counts that are left out by an iteration that quits and by one whose frame is refused are made
up later, and a clock that goes back brings none. -/
theorem ticks_exact_of_late_clock :
    let pace : Pace := { cycleDelay := 2, timerPeriod := 16 }
    let machine := Machine.fresh [0x12, 0x00] (CyclicSource.ofPattern [7])
    let earlier : List Moment := [{ now := 117 }, { now := 150, poll := { quit := true } }]
    let skipped : Moment := { now := 166, refusal := some (.other "closed") }
    let later : List Moment := [{ now := 90 }, { now := 149 }]
    let moments := earlier ++ skipped :: later
    let first := startingAt machine pace 100
    let before := first.after earlier
    0 < pace.timerPeriod ∧
    (first.callsDuring moments).count .tick = 3 ∧ first.periodsSeen 100 moments = [1, 3] ∧
    (first.after moments).lastTick = 148 ∧
    ((first.after moments).step { now := 100 + 5 * 16 }).ticks = 2 ∧
    before.ticksOwed skipped.now = 3 ∧
    3 ≤ ((before.step skipped).host.callsDuring later).count .tick + 2 := by
  intro pace machine earlier skipped later moments first before
  have pos : 0 < pace.timerPeriod := by decide
  obtain ⟨total, last, next⟩ := ticks_exact pos machine 100 moments
  have seen : first.periodsSeen 100 moments = [1, 3] := by decide +kernel
  have made : (first.callsDuring moments).count .tick = 3 := total.trans (by rw [seen]; rfl)
  obtain ⟨-, -, -, brought⟩ := next { now := 100 + 5 * 16 }
  have resumed : ((first.after moments).step { now := 100 + 5 * 16 }).ending = .resumed := by
    decide +kernel
  obtain ⟨counts, madeUp⟩ := brought resumed
  rw [made] at last counts
  have two : ((first.after moments).step { now := 100 + 5 * 16 }).ticks = 2 :=
    Nat.add_left_cancel (counts.trans (by decide))
  have owed : before.ticksOwed skipped.now = 3 := by decide +kernel
  have enough := madeUp earlier skipped later rfl (by decide +kernel) (by decide)
  exact ⟨pos, made, seen, last, two, owed, by rwa [two, owed] at enough⟩

/-- A host that starts at time 100 with the period 16 quits an iteration at time 150, which leaves
out three counts.  The next iteration resumes, but at time 90: it makes none of them. -/
theorem counts_left_out_of_clock_set_back :
    let pace : Pace := { cycleDelay := 2, timerPeriod := 16 }
    let h := startingAt (.fresh [0x12, 0x00] (CyclicSource.ofPattern [7])) pace 100
    let skipped : Moment := { now := 150, poll := { quit := true } }
    let next := (h.step skipped).host.step { now := 90 }
    (h.step skipped).ending = .quit ∧ h.ticksOwed skipped.now = 3 ∧
    next.ending = .resumed ∧ next.ticks = 0 ∧ next.host.lastTick = h.lastTick := by
  decide +kernel

end Chip8.Host
