import Chip8.Machine.Cycle
/-!
# Actions on a machine

`Action` lists what can be done to a machine from outside: let it run a cycle, let it execute a
given instruction, count its timers down, and write its keypad and its timers. `Machine.perform`
does one of these, `Machine.after` is the machine that a sequence of actions leads to, and
`Machine.history` lists their outcomes. A failed action does not end a history.
-/

namespace Chip8

/-- What can be done to a machine from outside. -/
inductive Action where
  | cycle
  | execute (i : Instruction)
  | ticks (count : Nat)
  | setKeypad (keys : Keypad)
  | setKey (k : Key) (down : Bool)
  | setDelay (value : UInt8)
  | setSound (value : UInt8)
deriving DecidableEq

namespace Machine

variable {ρ : Type} [ByteSource ρ]

/-- Do one action. -/
def perform (m : Machine ρ) : Action → Outcome ρ
  | .cycle => m.cycle
  | .execute i => m.execute i
  | .ticks count => { machine := m.ticks count }
  | .setKeypad keys => { machine := { m with keypad := keys } }
  | .setKey k down => { machine := { m with keypad := m.keypad.set k down } }
  | .setDelay value => { machine := { m with delay := value } }
  | .setSound value => { machine := { m with sound := value } }

/-- The machine after a sequence of actions. -/
def after (m : Machine ρ) (actions : List Action) : Machine ρ :=
  actions.foldl (fun m a => (m.perform a).machine) m

/-- The outcomes of a sequence of actions, one after the other. -/
def history (m : Machine ρ) : List Action → List (Outcome ρ)
  | [] => []
  | a :: rest => m.perform a :: (m.perform a).machine.history rest

/-- The records of a sequence of actions. -/
def records (m : Machine ρ) (actions : List Action) : List LogRecord :=
  (m.history actions).flatMap Outcome.log

@[simp] theorem after_nil (m : Machine ρ) : m.after [] = m := rfl

@[simp] theorem after_cons (m : Machine ρ) (a : Action) (rest : List Action) :
    m.after (a :: rest) = (m.perform a).machine.after rest := rfl

theorem after_append (m : Machine ρ) (first later : List Action) :
    m.after (first ++ later) = (m.after first).after later := by
  simp [after]

end Machine

end Chip8
