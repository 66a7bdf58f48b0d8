import Chip8.Proofs.Host.Calls
import Chip8.Proofs.Storage.Basic
import Chip8.Proofs.Terminal.HeldKeys
import Chip8.Terminal.Console
import Mathlib.Data.List.TakeWhile

/-!
# Draining the keyboard

When a console polls its keyboard it reads the events that wait, up to the first escape key, and
leaves those behind it.  A `Visit` is such a poll: the events that have arrived since the last one,
and the time at which the console looks which keys are held.  `Console.consumed` lists the events
that successive visits read, and `Console.readings` the times that they read from the clock.

The events read by a visit are those in front of the first escape key (`keys_drain`), those behind
it keep waiting (`drain_of_quit`), and an event that plays a key is a stroke of it
(`Arrival.stroke?`).  So the keys after any visits have been
struck by the events consumed so far, one after the other (`keys_visited`), and if the clock does
not go back, a key is held exactly if one of these strokes is recent enough.

The layout of the keyboard is written out once more as a table of plain numbers,
`Keypad.numberFor`, and `HeldKeys.drainChecked` drains with the bounds of the array of keys checked;
it always completes.  The main statement is `poll_reads_up_to_escape`.
-/

namespace Chip8

/-! ### The layout as a table -/

/-- The number of the key played by a character. -/
def Keypad.numberFor (c : Char) : Option Nat :=
  match c.toLower with
  | '1' => some 0x1
  | '2' => some 0x2
  | '3' => some 0x3
  | '4' => some 0xC
  | 'q' => some 0x4
  | 'w' => some 0x5
  | 'e' => some 0x6
  | 'r' => some 0xD
  | 'a' => some 0x7
  | 's' => some 0x8
  | 'd' => some 0x9
  | 'f' => some 0xE
  | 'z' => some 0xA
  | 'x' => some 0x0
  | 'c' => some 0xB
  | 'v' => some 0xF
  | _ => none

/-- The table and the layout agree on every character. -/
theorem Keypad.numberFor_eq (c : Char) : numberFor c = (keyFor c).map Fin.val := by
  unfold numberFor keyFor
  generalize c.toLower = d
  by_cases mem : d ∈ layout
  · simp only [layout, List.mem_cons, List.not_mem_nil, or_false] at mem
    rcases mem with rfl | rfl | rfl | rfl | rfl | rfl | rfl | rfl | rfl | rfl | rfl | rfl | rfl |
      rfl | rfl | rfl <;> rfl
  · rw [List.idxOf?_eq_none_iff.2 mem]
    split <;> first | rfl | exact absurd (by decide) mem

/-- Every number in the table is that of a key. -/
theorem Keypad.numberFor_lt {c : Char} {n : Nat} (plays : numberFor c = some n) : n < 16 := by
  rw [numberFor_eq] at plays
  obtain ⟨k, -, rfl⟩ := Option.map_eq_some_iff.1 plays
  exact k.isLt

/-! ### One event -/

/-- The event of a character is a key press with this character, whatever its modifiers. -/
theorem TerminalEvent.char?_eq_some_iff {e : TerminalEvent} {c : Char} :
    e.char? = some c ↔ ∃ p, e = .press p ∧ p.code = .char c := by
  rcases e with ⟨⟨code, control, alt⟩⟩ | _
  · cases code <;> simp [char?]
  · simp [char?]

/-- The event of the escape key is a key press with its code, whatever its modifiers. -/
theorem TerminalEvent.isEscape_iff {e : TerminalEvent} :
    e.isEscape = true ↔ ∃ p, e = .press p ∧ p.code = .escape := by
  rcases e with ⟨⟨code, control, alt⟩⟩ | _
  · cases code <;> simp [isEscape]
  · simp [isEscape]

/-- The stroke that an event makes, if its character plays a key. -/
def Arrival.stroke? (a : Arrival) : Option Stroke :=
  (a.event.char?.bind Keypad.keyFor).map fun k => { key := k, time := a.time }

/-- The events that make a stroke of a key. -/
theorem Arrival.stroke?_eq_some_iff {a : Arrival} {s : Stroke} :
    a.stroke? = some s ↔
      (∃ p c, a.event = .press p ∧ p.code = .char c ∧ Keypad.keyFor c = some s.key) ∧
        a.time = s.time := by
  have plays : a.event.char?.bind Keypad.keyFor = some s.key ↔
      ∃ p c, a.event = .press p ∧ p.code = .char c ∧ Keypad.keyFor c = some s.key := by
    rw [Option.bind_eq_some_iff]
    constructor
    · rintro ⟨c, char, key⟩
      obtain ⟨p, press, code⟩ := TerminalEvent.char?_eq_some_iff.1 char
      exact ⟨p, c, press, code, key⟩
    · rintro ⟨p, c, press, code, key⟩
      exact ⟨c, TerminalEvent.char?_eq_some_iff.2 ⟨p, press, code⟩, key⟩
  rw [← plays, stroke?, Option.map_eq_some_iff]
  constructor
  · rintro ⟨k, key, rfl⟩
    exact ⟨key, rfl⟩
  · rintro ⟨key, time⟩
    exact ⟨s.key, key, by rw [time]⟩

namespace HeldKeys

/-- To note an event is to make its stroke. -/
theorem note_eq (h : HeldKeys) (a : Arrival) : h.note a = h.strike a.stroke?.toList := by
  unfold note Arrival.stroke?
  cases a.event.char?.bind Keypad.keyFor <;> rfl

/-- To note some events is to make their strokes. -/
theorem foldl_note (h : HeldKeys) (arrivals : List Arrival) :
    arrivals.foldl note h = h.strike (arrivals.filterMap Arrival.stroke?) := by
  induction arrivals generalizing h with
  | nil => rfl
  | cons a rest ih =>
    rw [List.foldl_cons, ih, note_eq, ← strike_append]
    cases stroke : a.stroke? with
    | none => rw [List.filterMap_cons_none stroke]; rfl
    | some s => rw [List.filterMap_cons_some stroke]; rfl

/-! ### One poll -/

/-- Note an event, with the bounds of the array of keys checked. -/
def noteChecked (h : HeldKeys) (a : Arrival) : Checked HeldKeys :=
  match a.event.char?.bind Keypad.numberFor with
  | some n => do
    let entries ← Checked.set h.pressedAt.entries n (some a.time)
    return { h with pressedAt := ⟨entries⟩ }
  | none => return h

/-- Read the waiting events up to the first escape key, with the bounds of the array of keys
checked. -/
def drainChecked (h : HeldKeys) : List Arrival → Checked Drained
  | [] => return { keys := h, waiting := [], quit := false }
  | a :: rest =>
    if a.event.isEscape then return { keys := h, waiting := rest, quit := true }
    else do
      let noted ← h.noteChecked a
      noted.drainChecked rest

/-- Every key that an event plays lies in the array. -/
theorem noteChecked_eq (h : HeldKeys) (a : Arrival) : h.noteChecked a = .ok (h.note a) := by
  have number : a.event.char?.bind Keypad.numberFor =
      (a.event.char?.bind Keypad.keyFor).map Fin.val := by
    cases a.event.char? with
    | none => rfl
    | some c => exact Keypad.numberFor_eq c
  unfold noteChecked note
  rw [number]
  cases a.event.char?.bind Keypad.keyFor with
  | none => rfl
  | some k =>
    simp only [Option.map_some, Checked.set_of_lt _ k.isLt]
    rfl

/-- A drain leaves the array of keys at no event. -/
theorem drainChecked_eq (h : HeldKeys) (pending : List Arrival) :
    h.drainChecked pending = .ok (h.drain pending) := by
  induction pending generalizing h with
  | nil => rfl
  | cons a rest ih =>
    rw [drainChecked, drain]
    split
    · rfl
    · rw [noteChecked_eq]
      exact ih (h.note a)

end HeldKeys

/-- The events in front of the first escape key. -/
def beforeEscape (pending : List Arrival) : List Arrival :=
  pending.takeWhile fun a => !a.event.isEscape

/-- If no event is the escape key, all of them are in front of the first. -/
theorem beforeEscape_of_forall {pending : List Arrival}
    (none : ∀ a ∈ pending, a.event.isEscape = false) : beforeEscape pending = pending := by
  rw [beforeEscape, List.takeWhile_eq_self_iff]
  simpa using none

theorem isEscape_of_mem_beforeEscape {pending : List Arrival} {a : Arrival}
    (mem : a ∈ beforeEscape pending) : a.event.isEscape = false := by
  simpa using List.mem_takeWhile_imp mem

/-- The events in front of an escape key are in front of the first, if none of them is one. -/
theorem beforeEscape_append_cons {before rest : List Arrival} {a : Arrival}
    (none : ∀ b ∈ before, b.event.isEscape = false) (escape : a.event.isEscape = true) :
    beforeEscape (before ++ a :: rest) = before := by
  rw [beforeEscape, List.takeWhile_append_of_pos (by simpa using none),
    List.takeWhile_cons_of_neg (by simp [escape]), List.append_nil]

/-- Either no waiting event is the escape key, or the events split at the first that is. -/
theorem escape_cases (pending : List Arrival) :
    (∀ a ∈ pending, a.event.isEscape = false) ∨
      ∃ before a rest, pending = before ++ a :: rest ∧
        (∀ b ∈ before, b.event.isEscape = false) ∧ a.event.isEscape = true := by
  cases found : pending.find? fun a => a.event.isEscape with
  | none =>
    left
    simpa using List.find?_eq_none.1 found
  | some a =>
    right
    obtain ⟨escape, before, rest, split, none⟩ := List.find?_eq_some_iff_append.1 found
    exact ⟨before, a, rest, split, by simpa using none, escape⟩

namespace HeldKeys

/-- Without an escape key all waiting events are noted. -/
theorem drain_of_forall (h : HeldKeys) {pending : List Arrival}
    (none : ∀ a ∈ pending, a.event.isEscape = false) :
    h.drain pending = { keys := pending.foldl note h, waiting := [], quit := false } := by
  induction pending generalizing h with
  | nil => rfl
  | cons a rest ih =>
    rw [drain_of_not_isEscape h rest (none a List.mem_cons_self)]
    exact ih (h.note a) fun b mem => none b (List.mem_cons_of_mem a mem)

/-- The events in front of the first escape key are noted, and those behind it are left waiting. -/
theorem drain_append_cons (h : HeldKeys) {before rest : List Arrival} {a : Arrival}
    (none : ∀ b ∈ before, b.event.isEscape = false) (escape : a.event.isEscape = true) :
    h.drain (before ++ a :: rest) =
      { keys := before.foldl note h, waiting := rest, quit := true } := by
  induction before generalizing h with
  | nil => exact drain_of_isEscape h rest escape
  | cons b before ih =>
    rw [List.cons_append, drain_of_not_isEscape h _ (none b List.mem_cons_self)]
    exact ih (h.note b) fun c mem => none c (List.mem_cons_of_mem b mem)

/-- A drain notes the events in front of the first escape key. -/
theorem keys_drain (h : HeldKeys) (pending : List Arrival) :
    (h.drain pending).keys = (beforeEscape pending).foldl note h := by
  rcases escape_cases pending with none | ⟨before, a, rest, rfl, none, escape⟩
  · rw [h.drain_of_forall none, beforeEscape_of_forall none]
  · rw [h.drain_append_cons none escape, beforeEscape_append_cons none escape]

/-- A drain asks to quit exactly if an escape key waits. -/
theorem quit_drain_iff (h : HeldKeys) (pending : List Arrival) :
    (h.drain pending).quit = true ↔ ∃ a ∈ pending, a.event.isEscape = true := by
  rcases escape_cases pending with none | ⟨before, a, rest, rfl, none, escape⟩
  · rw [h.drain_of_forall none]
    simpa using none
  · rw [h.drain_append_cons none escape]
    exact iff_of_true rfl ⟨a, by simp, escape⟩

/-- A drain that does not ask to quit reads all events. -/
theorem drain_of_quit_eq_false {h : HeldKeys} {pending : List Arrival}
    (stays : (h.drain pending).quit = false) :
    beforeEscape pending = pending ∧ (h.drain pending).waiting = [] := by
  rcases escape_cases pending with none | ⟨before, a, rest, rfl, none, escape⟩
  · rw [h.drain_of_forall none]
    exact ⟨beforeEscape_of_forall none, rfl⟩
  · rw [h.drain_append_cons none escape] at stays
    cases stays

/-- A drain that asks to quit leaves the events behind the first escape key waiting. -/
theorem drain_of_quit {h : HeldKeys} {pending : List Arrival}
    (asked : (h.drain pending).quit = true) :
    ∃ a, a.event.isEscape = true ∧
      pending = beforeEscape pending ++ a :: (h.drain pending).waiting := by
  rcases escape_cases pending with none | ⟨before, a, rest, rfl, none, escape⟩
  · rw [h.drain_of_forall none] at asked
    cases asked
  · rw [h.drain_append_cons none escape, beforeEscape_append_cons none escape]
    exact ⟨a, escape, rfl⟩

end HeldKeys

/-! ### Successive polls -/

/-- What a console meets when it polls its keyboard: the events that have arrived since the last
poll, and the time at which it looks which keys are held. -/
structure Visit where
  arrived : List Arrival
  now : Int
deriving DecidableEq

namespace Console

variable {ρ : Type}

/-- The events that wait at a visit. -/
def pending (c : Console ρ) (v : Visit) : List Arrival :=
  c.waiting ++ v.arrived

/-- Poll the keyboard at a visit. -/
def visit (c : Console ρ) (v : Visit) : Console ρ × Poll :=
  { c with waiting := c.pending v }.poll v.now

/-- The console after successive visits, also those after one that asks to quit. -/
def visited (c : Console ρ) (visits : List Visit) : Console ρ :=
  visits.foldl (fun c v => (c.visit v).1) c

/-- The events that successive visits read, in order, without the escape keys. -/
def consumed (c : Console ρ) : List Visit → List Arrival
  | [] => []
  | v :: rest => beforeEscape (c.pending v) ++ (c.visit v).1.consumed rest

/-- The times that successive visits read from the clock, in order: one for each stroke, and one
when the console looks which keys are held. -/
def readings (c : Console ρ) : List Visit → List Int
  | [] => []
  | v :: rest =>
    ((beforeEscape (c.pending v)).filterMap Arrival.stroke?).map Stroke.time ++
      v.now :: (c.visit v).1.readings rest

@[simp] theorem visited_nil (c : Console ρ) : c.visited [] = c := rfl

@[simp] theorem visited_cons (c : Console ρ) (v : Visit) (rest : List Visit) :
    c.visited (v :: rest) = (c.visit v).1.visited rest := rfl

theorem keys_visit (c : Console ρ) (v : Visit) :
    (c.visit v).1.keys = (c.keys.drain (c.pending v)).keys := rfl

/-- A visit shows the keys that are held after its drain. -/
theorem keypad_visit (c : Console ρ) (v : Visit) :
    (c.visit v).2.keypad = some ((c.visit v).1.keys.snapshot v.now) := rfl

theorem consumed_concat (c : Console ρ) (visits : List Visit) (v : Visit) :
    c.consumed (visits ++ [v]) =
      c.consumed visits ++ beforeEscape ((c.visited visits).pending v) := by
  induction visits generalizing c with
  | nil => simp [consumed]
  | cons u rest ih =>
    rw [List.cons_append, consumed, consumed, ih, List.append_assoc]
    rfl

/-- The last of the readings is the time at which the last visit looks at the keys. -/
theorem readings_concat (c : Console ρ) (visits : List Visit) (v : Visit) :
    c.readings (visits ++ [v]) =
      c.readings visits ++
        ((beforeEscape ((c.visited visits).pending v)).filterMap Arrival.stroke?).map Stroke.time ++
          [v.now] := by
  induction visits generalizing c with
  | nil => rfl
  | cons u rest ih =>
    rw [List.cons_append, readings, readings, ih]
    simp only [visited_cons, List.append_assoc, List.cons_append]

/-- The keys after successive visits are struck by the events consumed so far. -/
theorem keys_visited (c : Console ρ) (visits : List Visit) :
    (c.visited visits).keys = c.keys.strike ((c.consumed visits).filterMap Arrival.stroke?) := by
  induction visits generalizing c with
  | nil => rfl
  | cons v rest ih =>
    rw [visited_cons, ih, keys_visit, HeldKeys.keys_drain, HeldKeys.foldl_note, consumed,
      List.filterMap_append, HeldKeys.strike_append]

/-- The times of the strokes consumed so far are among the readings, in the same order. -/
theorem times_sublist_readings (c : Console ρ) (visits : List Visit) :
    (((c.consumed visits).filterMap Arrival.stroke?).map Stroke.time).Sublist
      (c.readings visits) := by
  induction visits generalizing c with
  | nil => exact List.Sublist.refl []
  | cons v rest ih =>
    rw [consumed, readings, List.filterMap_append, List.map_append]
    exact (List.Sublist.refl _).append ((ih (c.visit v).1).cons v.now)

/-- If the clock does not go back, the strokes consumed so far are in the order of their times, and
none is later than the last look at the keys. -/
theorem strokes_of_ordered {c : Console ρ} {visits : List Visit} {v : Visit}
    (ordered : (c.readings (visits ++ [v])).Pairwise (· ≤ ·)) :
    let strokes := (c.consumed (visits ++ [v])).filterMap Arrival.stroke?
    strokes.Pairwise (fun s t => s.time ≤ t.time) ∧ ∀ s ∈ strokes, s.time ≤ v.now := by
  intro strokes
  refine ⟨?_, ?_⟩
  · exact List.pairwise_map.1 (ordered.sublist (c.times_sublist_readings (visits ++ [v])))
  · intro s mem
    rw [readings_concat, List.pairwise_append] at ordered
    have read : s.time ∈ c.readings visits ++
        ((beforeEscape ((c.visited visits).pending v)).filterMap Arrival.stroke?).map
          Stroke.time := by
      have split : strokes = (c.consumed visits).filterMap Arrival.stroke? ++
          (beforeEscape ((c.visited visits).pending v)).filterMap Arrival.stroke? := by
        rw [← List.filterMap_append, ← consumed_concat]
      rw [split] at mem
      rcases List.mem_append.1 mem with earlier | now
      · exact List.mem_append_left _
          ((c.times_sublist_readings visits).subset (List.mem_map_of_mem earlier))
      · exact List.mem_append_right _ (List.mem_map_of_mem now)
    exact ordered.2.2 s.time read v.now (List.mem_singleton_self _)

/-- If the clock does not go back, the last visit shows the keys that were struck less than the
timeout before it, by any of the events consumed so far. -/
theorem get_shown_iff {timeout : Nat} {c : Console ρ} (untouched : c.keys = .empty timeout)
    {visits : List Visit} {v : Visit} (ordered : (c.readings (visits ++ [v])).Pairwise (· ≤ ·))
    {k : Key} :
    (((c.visited visits).visit v).1.keys.snapshot v.now).get k = true ↔
      ∃ a ∈ c.consumed (visits ++ [v]), ∃ p ch, a.event = .press p ∧ p.code = .char ch ∧
        Keypad.keyFor ch = some k ∧ v.now - a.time < timeout := by
  obtain ⟨inOrder, past⟩ := strokes_of_ordered ordered
  have last : ((c.visited visits).visit v).1 = c.visited (visits ++ [v]) := by
    rw [visited, visited, List.foldl_append]
    rfl
  have recent {s : Stroke} (mem : s ∈ (c.consumed (visits ++ [v])).filterMap Arrival.stroke?) :
      elapsed s.time v.now < timeout ↔ v.now - s.time < timeout := by
    have := past s mem
    simp only [elapsed]
    omega
  rw [last, keys_visited, untouched, HeldKeys.get_snapshot, HeldKeys.isHeld_strike_iff inOrder]
  constructor
  · rintro ⟨s, mem, rfl, less⟩
    obtain ⟨a, consumed, stroke⟩ := List.mem_filterMap.1 mem
    obtain ⟨⟨p, ch, press, code, key⟩, time⟩ := Arrival.stroke?_eq_some_iff.1 stroke
    exact ⟨a, consumed, p, ch, press, code, key, by rw [time]; exact (recent mem).1 less⟩
  · rintro ⟨a, consumed, p, ch, press, code, key, less⟩
    have stroke : a.stroke? = some { key := k, time := a.time } :=
      Arrival.stroke?_eq_some_iff.2 ⟨⟨p, ch, press, code, key⟩, rfl⟩
    have mem := List.mem_filterMap.2 ⟨a, consumed, stroke⟩
    exact ⟨_, mem, rfl, (recent mem).2 less⟩

variable [ByteSource ρ]

/-- A console reads its keyboard up to the first escape key.  After any earlier polls, a poll asks
to quit exactly if an escape key waits; it reads the events in front of the first one in order, or
all of them if there is none, and leaves those behind it waiting.  Every number that it presses, for
whatever character, lies in the array of sixteen keys.  If the clock does not go back, the keypad
that it writes shows a key as pressed exactly if an event read so far, by this poll or by an earlier
one, is a character that plays the key, with any modifiers, and was read less than the timeout
before.  A host whose poll met the escape key makes no further call, and nothing but the keypad of
its machine changes. -/
theorem poll_reads_up_to_escape {timeout : Nat} {c : Console ρ}
    (untouched : c.keys = .empty timeout) (visits : List Visit) (v : Visit)
    (ordered : (c.readings (visits ++ [v])).Pairwise (· ≤ ·)) :
    let before := c.visited visits
    let pending := before.pending v
    let read := beforeEscape pending
    let polled := before.visit v
    let escapes (a : Arrival) : Prop := ∃ p, a.event = .press p ∧ p.code = .escape
    (polled.2.quit = true ↔ ∃ a ∈ pending, escapes a) ∧
    (∀ a ∈ read, ¬ escapes a) ∧
    (polled.2.quit = false → read = pending ∧ polled.1.waiting = []) ∧
    (polled.2.quit = true → ∃ a, escapes a ∧ pending = read ++ a :: polled.1.waiting) ∧
    before.keys.drainChecked pending =
      .ok { keys := read.foldl .note before.keys
            waiting := polled.1.waiting
            quit := polled.2.quit } ∧
    (∀ ch, Keypad.numberFor ch = (Keypad.keyFor ch).map Fin.val) ∧
    (∀ ch n, Keypad.numberFor ch = some n → n < 16) ∧
    ∃ shown, polled.2.keypad = some shown ∧
      (∀ k, shown.get k = true ↔
        ∃ a ∈ c.consumed (visits ++ [v]), ∃ p ch, a.event = .press p ∧ p.code = .char ch ∧
          Keypad.keyFor ch = some k ∧ v.now - a.time < timeout) ∧
      (polled.2.quit = true → ∀ (h : Host ρ) (m : Moment), m.poll = polled.2 →
        ∀ calls h' e, h.Proceeds m .polling calls h' e ↔
          calls = [.poll] ∧ h' = { h with machine := { h.machine with keypad := shown } } ∧
            e = .quit) := by
  intro before pending read polled escapes
  have escapes_iff (a : Arrival) : a.event.isEscape = true ↔ escapes a :=
    TerminalEvent.isEscape_iff
  refine ⟨?_, ?_, ?_, ?_, ?_, Keypad.numberFor_eq, fun _ _ => Keypad.numberFor_lt,
    polled.1.keys.snapshot v.now, before.keypad_visit v, fun k => get_shown_iff untouched ordered,
    ?_⟩
  · simp only [← escapes_iff]
    exact before.keys.quit_drain_iff pending
  · intro a mem escape
    have other : a.event.isEscape = false := isEscape_of_mem_beforeEscape mem
    rw [(escapes_iff a).2 escape] at other
    cases other
  · exact HeldKeys.drain_of_quit_eq_false
  · simp only [← escapes_iff]
    exact HeldKeys.drain_of_quit
  · rw [HeldKeys.drainChecked_eq, ← HeldKeys.keys_drain]
    rfl
  · intro asked h m poll calls h' e
    have accepted : h.accept m.poll =
        { h with machine := { h.machine with keypad := polled.1.keys.snapshot v.now } } := by
      rw [poll, Host.accept, before.keypad_visit v]
    rw [Host.proceeds_iff_of_quit (by rw [poll]; exact asked), accepted]

/-- A capital `Q` with control, the escape key and an `x` with alt are typed at once.  The first
poll asks to quit and shows the key 4, and the `x` is not read.  The second poll reads it and shows
the key 0, and the timeout 45 has passed for the key 4. -/
theorem poll_reads_up_to_escape_of_late_key :
    let machine := Machine.fresh [0x12, 0x00] (CyclicSource.ofPattern [7])
    let c : Console CyclicSource := { host := .startingAt machine {} 0, keys := .empty 45 }
    let q : Arrival := ⟨.press { code := .char 'Q', control := true }, 10⟩
    let escape : Arrival := ⟨.press { code := .escape }, 11⟩
    let x : Arrival := ⟨.press { code := .char 'x', alt := true }, 50⟩
    let first : Visit := ⟨[q, escape, x], 20⟩
    let second : Visit := ⟨[⟨.other, 51⟩], 60⟩
    (c.readings [first]).Pairwise (· ≤ ·) ∧ (c.readings [first, second]).Pairwise (· ≤ ·) ∧
    (c.visit first).2.quit = true ∧
    (∃ shown, (c.visit first).2.keypad = some shown ∧ shown.get 4 = true ∧
      ∀ calls h' e,
        c.host.Proceeds { now := 20, poll := (c.visit first).2 } .polling calls h' e →
          calls = [.poll] ∧ h'.machine.keypad = shown) ∧
    ∃ shown, ((c.visit first).1.visit second).2.keypad = some shown ∧ shown.get 0 = true ∧
      shown.get 4 = false := by
  intro machine c q escape x first second
  have orderedFirst : (c.readings [first]).Pairwise (· ≤ ·) := by decide +kernel
  have ordered : (c.readings [first, second]).Pairwise (· ≤ ·) := by decide +kernel
  have readFirst : c.consumed [first] = [q] := by decide +kernel
  have read : c.consumed [first, second] = [q, x, ⟨.other, 51⟩] := by decide +kernel
  obtain ⟨quits, -, -, -, -, -, -, shown, keypad, pressed, nothing⟩ :=
    poll_reads_up_to_escape rfl [] first orderedFirst
  obtain ⟨-, -, -, -, -, -, -, shown', keypad', pressed', -⟩ :=
    poll_reads_up_to_escape rfl [first] second ordered
  have asked : (c.visit first).2.quit = true :=
    quits.2 ⟨escape, by decide, { code := .escape }, rfl, rfl⟩
  refine ⟨orderedFirst, ordered, asked, ⟨shown, keypad, ?_, ?_⟩, shown', keypad', ?_, ?_⟩
  · exact (pressed 4).2 ⟨q, by rw [List.nil_append, readFirst]; decide, _, 'Q', rfl, rfl, by decide⟩
  · intro calls h' e course
    obtain ⟨polled, rfl, -⟩ := (nothing asked c.host _ rfl calls h' e).1 course
    exact ⟨polled, rfl⟩
  · exact (pressed' 0).2 ⟨x, by rw [List.singleton_append, read]; decide, _, 'x', rfl, rfl,
      by decide⟩
  · refine Bool.eq_false_iff.2 fun down => ?_
    obtain ⟨a, mem, p, ch, press, code, key, recent⟩ := (pressed' 4).1 down
    rw [List.singleton_append, read] at mem
    simp only [List.mem_cons, List.not_mem_nil, or_false] at mem
    rcases mem with rfl | rfl | rfl
    · exact absurd recent (by decide)
    · cases press
      cases code
      exact absurd key (by decide)
    · cases press

end Console

end Chip8
