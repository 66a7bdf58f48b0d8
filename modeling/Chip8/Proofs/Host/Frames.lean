import Chip8.Host.Session
import Chip8.Proofs.Host.Calls
import Chip8.Proofs.Machine.Faults

/-!
# The frame on the display

A host shows the screen of its machine after each cycle that succeeds, and a `Recorder` keeps what
it is shown.  `Host.recorded` lets a recorder listen to the calls of successive iterations, one call
after the other; a frame that is refused leaves it as it was.  `Host.acceptedScreens` lists the
screens right after the cycles that succeed and whose frames are accepted.  The two agree
(`recorded_eq`), whatever the clock, the input device and the machine do.

A display that refuses nothing follows the machine.  Polls and counts of the timers do not touch the
screen, and a failed cycle changes nothing, so that an iteration changes the screen only if it
presents the new one (`screen_step`).  By induction on the iterations the screen is the last one
that was accepted (`screen_after`), and as long as there is none it is the one that the host started
with, which is dark for a program just loaded and need not be for a machine that has run before
(`screen_lit_of_drawn_start`).  The main statement is `recorded_follows_screen`.
-/

namespace Chip8

/-- What a recorder makes of a call, if its frames are refused for the given reason or, without a
reason, accepted. -/
def Recorder.hear (refusal : Option IoFailure) (r : Recorder) : HostCall → Recorder
  | .present screen => r.note (if refusal.isSome then none else some screen)
  | _ => r

/-- A recorder counts the frames that it accepts and keeps the last of them. -/
theorem Recorder.note_eq (r : Recorder) (presented : Option Screen) :
    r.note presented =
      { count := r.count + presented.toList.length, last := presented.or r.last } := by
  cases presented <;> rfl

/-- Whether an iteration ended because the display refused its frame. -/
def Ending.isRefusal : Ending → Bool
  | .failed (.io _) => true
  | _ => false

namespace Host

variable {ρ : Type} [ByteSource ρ]

/-- The recorder after it has listened to the calls of successive iterations. -/
def recorded (h : Host ρ) (r : Recorder) : List Moment → Recorder
  | [] => r
  | m :: rest => (h.step m).host.recorded ((h.calls m).foldl (.hear m.refusal) r) rest

/-- The screens right after those cycles of successive iterations that succeed and whose frames are
accepted, in order. -/
def acceptedScreens (h : Host ρ) : List Moment → List Screen
  | [] => []
  | m :: rest =>
    let outcome := (h.accept m.poll).machine.cycle
    (if .cycle ∈ h.calls m ∧ outcome.fault = none ∧ m.refusal = none then
      [outcome.machine.screen] else []) ++ (h.step m).host.acceptedScreens rest

/-! ### What an iteration presents -/

/-- An iteration calls for a cycle exactly if it attempts one. -/
theorem cycle_mem_calls_iff {h : Host ρ} {m : Moment} :
    .cycle ∈ h.calls m ↔ (h.step m).attempted = true := by
  rw [← List.count_pos_iff, count_cycle_calls]
  cases (h.step m).attempted <;> decide

omit [ByteSource ρ] in
/-- A host that only counts the timers presents nothing. -/
@[simp] theorem presented_countTimers (h : Host ρ) (now : Int) :
    (h.countTimers now).presented = none := by
  unfold countTimers
  split <;> rfl

omit [ByteSource ρ] in
/-- A host that only counts the timers is not refused anything. -/
@[simp] theorem isRefusal_ending_countTimers (h : Host ρ) (now : Int) :
    (h.countTimers now).ending.isRefusal = false := by
  unfold countTimers
  split <;> rfl

/-- An iteration presents the screen right after its cycle, if there is one that succeeds and the
frame is accepted. -/
theorem toList_presented_step (h : Host ρ) (m : Moment) :
    (h.step m).presented.toList =
      if .cycle ∈ h.calls m ∧ (h.accept m.poll).machine.cycle.fault = none ∧ m.refusal = none then
        [(h.accept m.poll).machine.cycle.machine.screen] else [] := by
  simp only [cycle_mem_calls_iff]
  rcases h.step_cases m with ⟨-, i⟩ | ⟨-, -, f, fault, i⟩ | ⟨-, -, clean, cause, refusal, i⟩ |
    ⟨-, -, clean, accepted, i⟩ | ⟨-, -, i⟩
  · simp [i]
  · simp [i, -Machine.cycle_fault, fault]
  · simp [i, refusal]
  · simp [i, -Machine.cycle_fault, clean, accepted]
  · simp [i]

/-- An iteration ends with a refusal exactly if it asks the display to show a screen and the display
refuses. -/
theorem isRefusal_ending_step_iff {h : Host ρ} {m : Moment} :
    (h.step m).ending.isRefusal = true ↔
      m.refusal.isSome = true ∧ ∃ screen, .present screen ∈ h.calls m := by
  rcases h.step_cases m with ⟨-, i⟩ | ⟨-, -, f, fault, i⟩ | ⟨-, -, clean, cause, refusal, i⟩ |
    ⟨-, -, clean, accepted, i⟩ | ⟨-, -, i⟩
  · simp [i, calls, Ending.isRefusal]
  · simp [i, calls, Ending.isRefusal, attemptCalls_of_fault fault]
  · simp [i, calls, Ending.isRefusal, attemptCalls_of_clean clean, refusal]
  · simp [i, accepted]
  · simp [i, calls]

/-- The first of several iterations puts the screen that it presents in front. -/
theorem acceptedScreens_cons (h : Host ρ) (m : Moment) (rest : List Moment) :
    h.acceptedScreens (m :: rest) =
      (h.step m).presented.toList ++ (h.step m).host.acceptedScreens rest := by
  rw [toList_presented_step]
  rfl

/-! ### Listening to the calls -/

/-- A recorder does not mind the counts of the timers. -/
theorem foldl_hear_replicate_tick (refusal : Option IoFailure) (r : Recorder) (count : Nat) :
    (List.replicate count .tick).foldl (.hear refusal) r = r := by
  induction count with
  | zero => rfl
  | succ count ih => exact ih

/-- A recorder that listens to an iteration notes the screen that the iteration presents. -/
theorem foldl_hear_calls (h : Host ρ) (m : Moment) (r : Recorder) :
    (h.calls m).foldl (.hear m.refusal) r = r.note (h.step m).presented := by
  have heard : (h.calls m).foldl (.hear m.refusal) r =
      (if (h.step m).attempted then (h.accept m.poll).attemptCalls else []).foldl
        (.hear m.refusal) r := by
    rw [calls, List.foldl_cons, List.foldl_append, foldl_hear_replicate_tick]
    rfl
  rw [heard]
  rcases h.step_cases m with ⟨-, i⟩ | ⟨-, -, f, fault, i⟩ | ⟨-, -, clean, cause, refusal, i⟩ |
    ⟨-, -, clean, accepted, i⟩ | ⟨-, -, i⟩
  · simp [i, Recorder.note]
  · simp [i, attemptCalls_of_fault fault, Recorder.hear, Recorder.note]
  · simp [i, attemptCalls_of_clean clean, refusal, Recorder.hear, Recorder.note]
  · simp [i, attemptCalls_of_clean clean, accepted, Recorder.hear]
  · simp [i, Recorder.note]

/-- A recorder that listens to successive iterations counts the accepted screens and keeps the last
of them. -/
theorem recorded_eq (h : Host ρ) (r : Recorder) (moments : List Moment) :
    h.recorded r moments =
      { count := r.count + (h.acceptedScreens moments).length
        last := (h.acceptedScreens moments).getLast?.or r.last } := by
  induction moments generalizing h r with
  | nil => rfl
  | cons m rest ih =>
    rw [recorded, foldl_hear_calls, Recorder.note_eq, ih, acceptedScreens_cons,
      List.length_append, List.getLast?_append, Nat.add_assoc, Option.or_assoc]
    cases (h.step m).presented <;> rfl

/-! ### A display that refuses nothing -/

omit [ByteSource ρ] in
/-- A poll does not touch the screen. -/
@[simp] theorem screen_accept (h : Host ρ) (p : Poll) :
    (h.accept p).machine.screen = h.machine.screen := by
  unfold accept
  split <;> rfl

omit [ByteSource ρ] in
/-- Counts of the timers do not touch the screen. -/
@[simp] theorem screen_countTimers (h : Host ρ) (now : Int) :
    (h.countTimers now).host.machine.screen = h.machine.screen := by
  unfold countTimers
  split <;> rfl

/-- If its frame is not refused, an iteration changes the screen only to one that it presents. -/
theorem screen_step {h : Host ρ} {m : Moment}
    (accepted : (h.step m).ending.isRefusal = false) :
    (h.step m).host.machine.screen = (h.step m).presented.getD h.machine.screen := by
  rcases h.step_cases m with ⟨-, i⟩ | ⟨-, -, f, fault, i⟩ | ⟨-, -, -, cause, -, i⟩ |
    ⟨-, -, -, -, i⟩ | ⟨-, -, i⟩
  · simp [i]
  · simp [i, Machine.machine_cycle_of_fault fault]
  · rw [i] at accepted
    cases accepted
  · simp [i]
  · simp [i]

/-- If no frame is refused, the screen after successive iterations is the last that was accepted,
and the one from before if there was none. -/
theorem screen_after {h : Host ρ} {moments : List Moment}
    (accepted : ∀ i ∈ h.iterations moments, i.ending.isRefusal = false) :
    (h.after moments).machine.screen =
      (h.acceptedScreens moments).getLast?.getD h.machine.screen := by
  induction moments generalizing h with
  | nil => rfl
  | cons m rest ih =>
    rw [iterations_cons] at accepted
    have first := screen_step (accepted _ List.mem_cons_self)
    rw [after_cons, ih fun i mem => accepted i (List.mem_cons_of_mem _ mem), first,
      acceptedScreens_cons, List.getLast?_append]
    cases ((h.step m).host.acceptedScreens rest).getLast? with
    | some screen => rfl
    | none => cases (h.step m).presented <;> rfl

/-- The frame that a display keeps follows the screen of the machine.  Every iteration makes its
calls one after the other until it ends, with a refusal exactly if it asks the display to show a
screen and the display refuses.  A recorder that listens to the calls of any iterations counts the
cycles that succeeded and whose frames were accepted, and keeps the screen right after the last of
them.  As long as no frame was refused, it keeps the screen that the machine has now, if it was
shown one at all; else the screen is still that of the start, dark for a program just loaded. -/
theorem recorded_follows_screen {h : Host ρ} (pos : 0 < h.pace.timerPeriod)
    (moments : List Moment) :
    let now := h.after moments
    let shown := h.recorded {} moments
    (∀ m calls h' e, now.Proceeds m .polling calls h' e ↔
      calls = now.calls m ∧ h' = (now.step m).host ∧ e = (now.step m).ending) ∧
    (∀ m, (now.step m).ending.isRefusal = true ↔
      m.refusal.isSome = true ∧ ∃ screen, .present screen ∈ now.calls m) ∧
    shown.count = (h.acceptedScreens moments).length ∧
    shown.last = (h.acceptedScreens moments).getLast? ∧
    ((∀ i ∈ h.iterations moments, i.ending.isRefusal = false) →
      (0 < shown.count → shown.last = some now.machine.screen) ∧
      (shown.count = 0 → now.machine.screen = h.machine.screen) ∧
      ∀ program random, Machine.boot program random = .ok h.machine →
        shown.count = 0 → now.machine.screen = .blank) := by
  intro now shown
  have posNow : 0 < now.pace.timerPeriod := by
    rw [pace_after]
    exact pos
  have count : shown.count = (h.acceptedScreens moments).length := by
    simp [shown, recorded_eq]
  have last : shown.last = (h.acceptedScreens moments).getLast? := by
    simp [shown, recorded_eq]
  refine ⟨fun m calls h' e => proceeds_iff posNow, fun m => isRefusal_ending_step_iff, count, last,
    ?_⟩
  intro accepted
  have screen : now.machine.screen = (h.acceptedScreens moments).getLast?.getD h.machine.screen :=
    screen_after accepted
  have unshown : shown.count = 0 → now.machine.screen = h.machine.screen := by
    intro nothing
    rw [screen, List.eq_nil_of_length_eq_zero (count.symm.trans nothing)]
    rfl
  refine ⟨?_, unshown, ?_⟩
  · intro shownOnce
    rw [count] at shownOnce
    rw [last, screen, List.getLast?_eq_some_getLast (List.ne_nil_of_length_pos shownOnce)]
    rfl
  · intro program random loaded nothing
    rw [unshown nothing, (Machine.boot_eq_ok_iff.1 loaded).2]
    rfl

/-- A program that points at a glyph, draws it and then returns from no call.  With a frame that is
accepted after each of the two cycles that succeed, the display keeps the glyph through an early
iteration, one that quits and one whose cycle fails; if the second frame is refused, it keeps the
dark screen instead. -/
theorem recorded_follows_screen_of_glyph :
    let program := [0xA0, 0x50, 0xD0, 0x05, 0x00, 0xEE]
    let machine := Machine.fresh program (CyclicSource.ofPattern [7])
    let h := startingAt machine { cycleDelay := 2 } 100
    let moments (refusal : Option IoFailure) : List Moment :=
      [{ now := 102 }, { now := 103 }, { now := 104, refusal := refusal },
        { now := 106, poll := { quit := true } }, { now := 107 }]
    let accepted := moments none
    let refused := moments (some (.other "closed"))
    0 < h.pace.timerPeriod ∧
    (h.recorded {} accepted).count = 2 ∧
    (h.recorded {} accepted).last = some (h.after accepted).machine.screen ∧
    (h.after accepted).machine.screen.pixel 0 0 = true ∧
    (h.recorded {} refused).count = 1 ∧ (h.recorded {} refused).last = some .blank ∧
    (h.after [{ now := 101 }]).machine.screen = .blank := by
  intro program machine h moments accepted refused
  have pos : 0 < h.pace.timerPeriod := by decide
  obtain ⟨-, -, count, -, follows⟩ := recorded_follows_screen pos accepted
  obtain ⟨length, clean, pixel⟩ : (h.acceptedScreens accepted).length = 2 ∧
      (∀ i ∈ h.iterations accepted, i.ending.isRefusal = false) ∧
      (h.after accepted).machine.screen.pixel 0 0 = true := by
    decide +kernel
  have two : (h.recorded {} accepted).count = 2 := count.trans length
  obtain ⟨kept, -, -⟩ := follows clean
  obtain ⟨-, -, count', last', -⟩ := recorded_follows_screen pos refused
  obtain ⟨length', blank⟩ : (h.acceptedScreens refused).length = 1 ∧
      (h.acceptedScreens refused).getLast? = some .blank := by
    decide +kernel
  obtain ⟨-, -, nothing, -, early⟩ := recorded_follows_screen pos [{ now := 101 }]
  obtain ⟨-, -, dark⟩ := early (by decide)
  have loaded : Machine.boot program (CyclicSource.ofPattern [7]) = .ok h.machine :=
    Machine.boot_eq_ok_iff.2 ⟨by decide, rfl⟩
  exact ⟨pos, two, kept (by rw [two]; decide), pixel, count'.trans length', last'.trans blank,
    dark _ _ loaded (nothing.trans (by decide))⟩

/-- A machine that has drawn a glyph before its host starts: after an iteration that is too early
for a cycle no frame has been refused and none presented, and the glyph is on the screen. -/
theorem screen_lit_of_drawn_start :
    let fresh := Machine.fresh [] (CyclicSource.ofPattern [7])
    let machine := fresh.after [.execute (.setIndex 0x50), .execute (.draw 0 0 5)]
    let h := startingAt machine { cycleDelay := 2 } 100
    let moments : List Moment := [{ now := 101 }]
    (∀ i ∈ h.iterations moments, i.ending.isRefusal = false) ∧
    (h.recorded {} moments).count = 0 ∧
    (h.after moments).machine.screen.pixel 0 0 = true ∧
    (h.after moments).machine.screen ≠ .blank := by
  intro fresh machine h moments
  obtain ⟨accepted, count, lit⟩ : (∀ i ∈ h.iterations moments, i.ending.isRefusal = false) ∧
      (h.recorded {} moments).count = 0 ∧
      (h.after moments).machine.screen.pixel 0 0 = true := by
    decide +kernel
  refine ⟨accepted, count, lit, fun blank => ?_⟩
  rw [blank, Screen.pixel_blank] at lit
  cases lit

end Host

end Chip8
