import Chip8.Terminal.HeldKeys

/-!
# Held keys after a history of strokes

`HeldKeys` remembers for each key one time only.  A `Stroke` is a key and the time at which it is
pressed, and `HeldKeys.strike` presses the keys of a list of strokes, one after the other.  Whatever
their times are, a key is then held or not according to the stroke of it that was made last
(`isHeld_strike_empty_iff`).

If the times never decrease, the stroke made last is also the latest one, and the least time has
passed since it (`time_le_of_lastStroke`).  So one stroke that is recent enough decides as well as
all of them: a key is held exactly if some stroke of it, anywhere in the history, was made less than
the timeout ago (`isHeld_strike_iff`).  The main statement is `held_iff_recent_stroke`.
-/

namespace Chip8

/-- A key and the time at which it is pressed. -/
structure Stroke where
  key : Key
  time : Int
deriving DecidableEq

/-- The stroke of a key that was made last. -/
def lastStroke (strokes : List Stroke) (k : Key) : Option Stroke :=
  (strokes.filter (·.key = k)).getLast?

/-- The first of several strokes is the last one of its key if no other follows. -/
theorem lastStroke_cons (s : Stroke) (rest : List Stroke) (k : Key) :
    lastStroke (s :: rest) k =
      if s.key = k then some ((lastStroke rest k).getD s) else lastStroke rest k := by
  by_cases same : s.key = k
  · rw [if_pos same, lastStroke, List.filter_cons_of_pos (by simpa using same),
      List.getLast?_cons]
    rfl
  · rw [if_neg same, lastStroke, List.filter_cons_of_neg (by simpa using same)]
    rfl

/-- There is no last stroke of a key exactly if there is none of it. -/
theorem lastStroke_eq_none_iff {strokes : List Stroke} {k : Key} :
    lastStroke strokes k = none ↔ ∀ s ∈ strokes, s.key ≠ k := by
  simp [lastStroke]

theorem mem_of_lastStroke {strokes : List Stroke} {k : Key} {last : Stroke}
    (isLast : lastStroke strokes k = some last) : last ∈ strokes ∧ last.key = k := by
  simpa using List.mem_of_getLast? isLast

/-- If the times never decrease, the stroke made last has the latest time. -/
theorem time_le_of_lastStroke {strokes : List Stroke}
    (ordered : strokes.Pairwise fun s t => s.time ≤ t.time) {k : Key} {last : Stroke}
    (isLast : lastStroke strokes k = some last) {s : Stroke} (mem : s ∈ strokes)
    (key : s.key = k) : s.time ≤ last.time := by
  obtain ⟨before, filtered⟩ := List.getLast?_eq_some_iff.1 isLast
  have orderedToo : (before ++ [last]).Pairwise fun s t => s.time ≤ t.time :=
    filtered ▸ ordered.filter (·.key = k)
  have listed : s ∈ before ++ [last] := filtered ▸ List.mem_filter.2 ⟨mem, by simpa using key⟩
  rcases List.mem_append.1 listed with earlier | same
  · exact (List.pairwise_append.1 orderedToo).2.2 s earlier last (List.mem_singleton_self last)
  · obtain rfl := List.mem_singleton.1 same
    exact Int.le_refl _

namespace HeldKeys

/-- Press the keys of some strokes, one after the other. -/
def strike (h : HeldKeys) (strokes : List Stroke) : HeldKeys :=
  strokes.foldl (fun h s => h.press s.key s.time) h

@[simp] theorem strike_nil (h : HeldKeys) : h.strike [] = h := rfl

@[simp] theorem strike_cons (h : HeldKeys) (s : Stroke) (rest : List Stroke) :
    h.strike (s :: rest) = (h.press s.key s.time).strike rest := rfl

theorem strike_append (h : HeldKeys) (first later : List Stroke) :
    h.strike (first ++ later) = (h.strike first).strike later := by
  simp [strike]

@[simp] theorem timeout_strike (h : HeldKeys) (strokes : List Stroke) :
    (h.strike strokes).timeout = h.timeout := by
  induction strokes generalizing h with
  | nil => rfl
  | cons s rest ih => rw [strike_cons, ih, timeout_press]

/-! ### Strokes in any order -/

/-- Whether a key is held is decided by the stroke of it that was made last, or was decided before
if there was none. -/
theorem isHeld_strike (h : HeldKeys) (strokes : List Stroke) (now : Int) (k : Key) :
    (h.strike strokes).isHeld now k =
      (lastStroke strokes k).elim (h.isHeld now k)
        fun s => decide (elapsed s.time now < h.timeout) := by
  induction strokes generalizing h with
  | nil => rfl
  | cons s rest ih =>
    rw [strike_cons, ih, timeout_press, isHeld_press, lastStroke_cons]
    split
    · cases lastStroke rest k <;> rfl
    · rfl

/-- Of keys that have not been pressed before, those are held whose last stroke is recent enough. -/
theorem isHeld_strike_empty_iff {timeout : Nat} {strokes : List Stroke} {now : Int} {k : Key} :
    ((empty timeout).strike strokes).isHeld now k = true ↔
      ∃ last, lastStroke strokes k = some last ∧ elapsed last.time now < timeout := by
  rw [isHeld_strike, isHeld_empty]
  cases lastStroke strokes k with
  | none => simp
  | some last =>
    simp only [Option.elim_some, decide_eq_true_eq, Option.some.injEq, exists_eq_left']
    exact Iff.rfl

/-- Strokes of other keys do not decide whether a key is held. -/
theorem isHeld_strike_of_forall_ne (h : HeldKeys) {strokes : List Stroke} {k : Key}
    (others : ∀ s ∈ strokes, s.key ≠ k) (now : Int) :
    (h.strike strokes).isHeld now k = h.isHeld now k := by
  rw [isHeld_strike, lastStroke_eq_none_iff.2 others]
  rfl

/-- A key that is not held is not held later either. -/
theorem isHeld_eq_false_of_le {h : HeldKeys} {now later : Int} (after : now ≤ later) {k : Key}
    (released : h.isHeld now k = false) : h.isHeld later k = false := by
  unfold isHeld at released ⊢
  split
  · next time pressed =>
    simp only [pressed, decide_eq_false_iff_not, Nat.not_lt] at released ⊢
    exact Nat.le_trans released (elapsed_le_elapsed after)
  · rfl

/-- With the timeout zero no key is held. -/
theorem isHeld_of_timeout_eq_zero {h : HeldKeys} (zero : h.timeout = 0) (now : Int) (k : Key) :
    h.isHeld now k = false := by
  unfold isHeld
  split
  · simp [zero]
  · rfl

/-! ### Strokes in the order of their times -/

/-- If the times never decrease, a key is held exactly if there is a stroke of it, anywhere in the
history, less than the timeout ago. -/
theorem isHeld_strike_iff {timeout : Nat} {strokes : List Stroke}
    (ordered : strokes.Pairwise fun s t => s.time ≤ t.time) {now : Int} {k : Key} :
    ((empty timeout).strike strokes).isHeld now k = true ↔
      ∃ s ∈ strokes, s.key = k ∧ elapsed s.time now < timeout := by
  rw [isHeld_strike_empty_iff]
  constructor
  · rintro ⟨last, isLast, recent⟩
    obtain ⟨mem, key⟩ := mem_of_lastStroke isLast
    exact ⟨last, mem, key, recent⟩
  · rintro ⟨s, mem, key, recent⟩
    cases isLast : lastStroke strokes k with
    | none => exact absurd key (lastStroke_eq_none_iff.1 isLast s mem)
    | some last =>
      have latest : s.time ≤ last.time := time_le_of_lastStroke ordered isLast mem key
      exact ⟨last, rfl, Nat.lt_of_le_of_lt (elapsed_le_elapsed_of_le latest) recent⟩

/-- A stroke not earlier than those before it leaves every held key held. -/
theorem isHeld_strike_concat {timeout : Nat} {strokes : List Stroke} {further : Stroke}
    (latest : ∀ s ∈ strokes, s.time ≤ further.time) {now : Int} {k : Key}
    (held : ((empty timeout).strike strokes).isHeld now k = true) :
    ((empty timeout).strike (strokes ++ [further])).isHeld now k = true := by
  obtain ⟨last, isLast, recent⟩ := isHeld_strike_empty_iff.1 held
  rw [strike_append, strike_cons, strike_nil, isHeld_press, timeout_strike]
  split
  · have mem : last ∈ strokes := (mem_of_lastStroke isLast).1
    have moreRecent : elapsed further.time now < timeout :=
      Nat.lt_of_le_of_lt (elapsed_le_elapsed_of_le (latest last mem)) recent
    exact decide_eq_true moreRecent
  · exact held

/-- The keypad shows the keys that were struck recently.  If the times of the strokes never
decrease, a key is pressed at any time, before, between or after them, exactly if a stroke of it was
made less than the timeout before that time; a time before the stroke counts as none passed.  A key
that is released stays so until its next stroke, a stroke not earlier than the others releases
nothing, and with the timeout zero no key is ever pressed.  If the times are in any order, the
stroke made last decides. -/
theorem held_iff_recent_stroke (timeout : Nat) (strokes : List Stroke) (k : Key) :
    let shown (strokes : List Stroke) (now : Int) : Bool :=
      (((empty timeout).strike strokes).snapshot now).get k
    (strokes.Pairwise (fun s t => s.time ≤ t.time) → ∀ now,
      shown strokes now = true ↔ ∃ s ∈ strokes, s.key = k ∧ max 0 (now - s.time) < timeout) ∧
    (∀ now later more, now ≤ later → (∀ s ∈ more, s.key ≠ k) →
      shown strokes now = false → shown (strokes ++ more) later = false) ∧
    (∀ further, (∀ s ∈ strokes, s.time ≤ further.time) → ∀ now,
      shown strokes now = true → shown (strokes ++ [further]) now = true) ∧
    (timeout = 0 → ∀ now, shown strokes now = false) ∧
    ∀ now, shown strokes now =
      (lastStroke strokes k).any fun s => decide (max 0 (now - s.time) < timeout) := by
  have passed (s : Stroke) (now : Int) :
      elapsed s.time now < timeout ↔ max 0 (now - s.time) < (timeout : Int) := by
    simp only [elapsed]
    omega
  intro shown
  have shown_eq (strokes : List Stroke) (now : Int) :
      shown strokes now = ((empty timeout).strike strokes).isHeld now k := get_snapshot _ now k
  simp only [shown_eq]
  refine ⟨?_, ?_, ?_, ?_, ?_⟩
  · intro ordered now
    simp only [isHeld_strike_iff ordered, passed]
  · intro now later more after others released
    rw [strike_append, isHeld_strike_of_forall_ne _ others]
    exact isHeld_eq_false_of_le after released
  · intro further latest now held
    exact isHeld_strike_concat latest held
  · intro zero now
    exact isHeld_of_timeout_eq_zero (by rw [timeout_strike]; exact zero) now k
  · intro now
    rw [isHeld_strike, isHeld_empty]
    cases lastStroke strokes k with
    | none => rfl
    | some last => exact decide_eq_decide.2 (passed last now)

/-- With the timeout 100 the key 3, struck at times 0 and 80, is pressed from before its first
stroke until just before time 180, and the stroke of the key `A` at time 200 does not bring it
back.  If its two strokes are made in the other order, it is released at time 100 already. -/
theorem held_iff_recent_stroke_of_repeated_key :
    let strokes : List Stroke := [⟨3, 0⟩, ⟨0xA, 20⟩, ⟨3, 80⟩]
    let shown (strokes : List Stroke) (now : Int) : Bool :=
      (((empty 100).strike strokes).snapshot now).get 3
    strokes.Pairwise (fun s t => s.time ≤ t.time) ∧
    shown strokes (-5) = true ∧ shown strokes 179 = true ∧ shown strokes 180 = false ∧
    shown (strokes ++ [⟨0xA, 200⟩]) 200 = false ∧
    shown (strokes ++ [⟨0xA, 200⟩]) 179 = true ∧
    shown [⟨3, 80⟩, ⟨3, 0⟩] 100 = false := by
  intro strokes shown
  have ordered : strokes.Pairwise (fun s t => s.time ≤ t.time) := by decide
  obtain ⟨recent, stays, keeps, -, -⟩ := held_iff_recent_stroke 100 strokes 3
  obtain ⟨-, -, -, -, last⟩ := held_iff_recent_stroke 100 [⟨3, 80⟩, ⟨3, 0⟩] 3
  have before : shown strokes (-5) = true := (recent ordered (-5)).2 ⟨⟨3, 0⟩, by decide⟩
  have until180 : shown strokes 179 = true := (recent ordered 179).2 ⟨⟨3, 80⟩, by decide⟩
  have from180 : shown strokes 180 = false :=
    Bool.eq_false_iff.2 fun held => absurd ((recent ordered 180).1 held) (by decide)
  exact ⟨ordered, before, until180, from180,
    stays 180 200 [⟨0xA, 200⟩] (by decide) (by decide) from180,
    keeps ⟨0xA, 200⟩ (by decide) 179 until180, (last 100).trans (by decide)⟩

end HeldKeys

end Chip8
