import Chip8.Host.Step
/-!
# Sessions

A session is a succession of iterations of the host loop. It counts the polls, one for each
iteration, and keeps a `Recorder`, a display that accepts every frame and remembers the last one.
`Session.follow` runs through a list of moments and `Session.followFor` through a schedule that
gives each iteration its moment; both stop at the first iteration that does not resume.
-/

namespace Chip8

/-- A display that counts the frames it accepts and keeps the last one. -/
structure Recorder where
  count : Nat := 0
  last : Option Screen := none
deriving DecidableEq

/-- Accept the frame of an iteration, if it presented one. -/
def Recorder.note (r : Recorder) : Option Screen → Recorder
  | some screen => { count := r.count + 1, last := some screen }
  | none => r

/-- A host whose loop has run for some iterations, and how the last of them ended. -/
structure Session (ρ : Type) where
  host : Host ρ
  ending : Ending := .resumed
  polls : Nat := 0
  recorder : Recorder := {}

namespace Session

variable {ρ : Type} [ByteSource ρ]

/-- One more iteration. -/
def next (s : Session ρ) (m : Moment) : Session ρ :=
  let iteration := s.host.step m
  { host := iteration.host
    ending := iteration.ending
    polls := s.polls + 1
    recorder := s.recorder.note iteration.presented }

/-- Iterations at the given moments, up to the first that does not resume. -/
def follow (s : Session ρ) : List Moment → Session ρ
  | [] => s
  | m :: rest => if s.ending = .resumed then (s.next m).follow rest else s

/-- At most `count` iterations at the moments of a schedule, up to the first that does not resume.
The schedule is asked for the number of the iteration, which counts from zero. -/
def followFor (schedule : Nat → Moment) (s : Session ρ) : Nat → Session ρ
  | 0 => s
  | count + 1 =>
    if s.ending = .resumed then followFor schedule (s.next (schedule s.polls)) count else s

@[simp] theorem host_next (s : Session ρ) (m : Moment) :
    (s.next m).host = (s.host.step m).host := rfl

@[simp] theorem ending_next (s : Session ρ) (m : Moment) :
    (s.next m).ending = (s.host.step m).ending := rfl

@[simp] theorem polls_next (s : Session ρ) (m : Moment) : (s.next m).polls = s.polls + 1 := rfl

/-- The recorder notes what an iteration presents. -/
theorem recorder_next_eq_note (s : Session ρ) (m : Moment) :
    (s.next m).recorder = s.recorder.note (s.host.step m).presented := rfl

/-- A session that has ended stays as it is. -/
theorem follow_of_ne_resumed {s : Session ρ} (ended : s.ending ≠ .resumed)
    (moments : List Moment) : s.follow moments = s := by
  cases moments with
  | nil => rfl
  | cons m rest => simp [follow, ended]

/-- A session that has not ended goes on with the first moment. -/
theorem follow_cons_of_resumed {s : Session ρ} (going : s.ending = .resumed) (m : Moment)
    (rest : List Moment) : s.follow (m :: rest) = (s.next m).follow rest := by
  simp [follow, going]

end Session

end Chip8
