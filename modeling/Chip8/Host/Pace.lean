import Chip8.Clock
/-!
# Pacing

`Pace` says how long a host waits between two cycles and between two counts of the timers.

The timers are counted down once for every whole period since the last count. `TimerLoop`
describes this as a loop that moves the time of the last count forward by one period as long as a
period has elapsed, and `ticksDue` computes how often it turns (`ticksDue_eq_some_iff`). With the
period zero the loop never ends (`not_timerLoop_zero`), and `ticksDue` has no answer.
-/

namespace Chip8

/-- The delays between two cycles and between two counts of the timers, in nanoseconds. -/
structure Pace where
  cycleDelay : Nat := 2000000
  timerPeriod : Nat := 1000000000 / 60
deriving DecidableEq

/-- The timer loop at time `now`, entered when the last count was at `last`, turns `turns` times. -/
inductive TimerLoop (period : Nat) (now : Int) : Int → Nat → Prop
  | done {last : Int} (early : elapsed last now < period) : TimerLoop period now last 0
  | turn {last : Int} {turns : Nat} (due : period ≤ elapsed last now)
      (later : TimerLoop period now (last + period) turns) :
      TimerLoop period now last (turns + 1)

/-- How often the timers have to be counted down, if the timer loop ends. -/
def ticksDue (period : Nat) (last now : Int) : Option Nat :=
  if period = 0 then none else some (elapsed last now / period)

/-- With the period zero the timer loop does not end. -/
theorem not_timerLoop_zero (now last : Int) (turns : Nat) : ¬ TimerLoop 0 now last turns := by
  intro h
  induction h with
  | done early => exact Nat.not_lt_zero _ early
  | turn _ _ ih => exact ih

/-- With a positive period the timer loop turns once for every whole period that has elapsed. -/
theorem timerLoop_iff {period : Nat} (pos : 0 < period) {now last : Int} {turns : Nat} :
    TimerLoop period now last turns ↔ elapsed last now / period = turns := by
  constructor
  · intro h
    induction h with
    | done early => exact Nat.div_eq_of_lt early
    | turn due _ ih =>
      rw [elapsed_add] at ih
      rw [Nat.div_eq_sub_div pos due, ih]
  · intro h
    induction turns generalizing last with
    | zero => exact .done ((Nat.div_eq_zero_iff_lt pos).1 h)
    | succ turns ih =>
      have due : period ≤ elapsed last now := by
        rcases Nat.lt_or_ge (elapsed last now) period with early | due
        · rw [Nat.div_eq_of_lt early] at h
          cases h
        · exact due
      refine .turn due (ih ?_)
      rw [Nat.div_eq_sub_div pos due] at h
      rw [elapsed_add]
      exact Nat.succ.inj h

/-- The number of ticks that are due is the number of turns of the timer loop. -/
theorem ticksDue_eq_some_iff {period : Nat} {last now : Int} {turns : Nat} :
    ticksDue period last now = some turns ↔ TimerLoop period now last turns := by
  rcases Nat.eq_zero_or_pos period with rfl | pos
  · simp [ticksDue, not_timerLoop_zero]
  · simp [ticksDue, timerLoop_iff pos, Nat.ne_of_gt pos]

end Chip8
