import Chip8.Proofs.Machine.Faults

/-!
# The records of a run

A machine reports a trace when a cycle begins, and a warning when it passes over a word without a
meaning or rejects a return or a call.  `Machine.Reports` lists what one action reports, rule by
rule, and `Machine.Logs` puts the reports of a run together in the order of its actions.

The rules leave no choice (`Logs.unique`), and the main statement, `log_traces_every_cycle`, says
that a run of ordinary actions reports exactly what they say.  The counts follow from the rules
alone: there is one trace for each cycle (`Logs.countP_trace`) and one warning for each failed cycle
and each unknown word that is passed over (`Logs.countP_warn`).
-/

namespace Chip8

/-- Whether an instruction is a word without a meaning. -/
def Instruction.isUnknown : Instruction → Bool
  | .unknown _ => true
  | _ => false

namespace Machine

variable {ρ : Type} [ByteSource ρ]

/-- The trace of a cycle: its address, and the decoding of the two bytes there.  Memory is read
modulo 4096. -/
def trace (m : Machine ρ) : LogRecord :=
  .executing m.pc (.ofBytes (m.memory.read m.pc.toNat) (m.memory.read (m.pc.toNat + 1)))

/-- `m.Reports a log` says that an ordinary action reports `log`. -/
inductive Reports (m : Machine ρ) : Action → List LogRecord → Prop
  /-- What the host does between cycles is not reported. -/
  | silent {a} (fromHost : a.fromHost) : m.Reports a []
  | traced (clean : m.cycle.fault = none) (known : m.fetch.isUnknown = false) :
      m.Reports .cycle [m.trace]
  | skipped {word} (clean : m.cycle.fault = none) (fetched : m.fetch = .unknown word) :
      m.Reports .cycle [m.trace, .skipped word]
  | emptyReturn (failed : m.cycle.fault = some (.stackUnderflow m.pc)) :
      m.Reports .cycle [m.trace, .emptyReturn]
  | fullCall {target} (failed : m.cycle.fault = some (.stackOverflow m.pc))
      (fetched : m.fetch = .call target) :
      m.Reports .cycle [m.trace, .fullCall target]

/-- `m.Logs actions log` says that a run of ordinary actions reports `log`. -/
inductive Logs : Machine ρ → List Action → List LogRecord → Prop
  | nil {m} : Logs m [] []
  | cons {m a rest log more} (first : m.Reports a log)
      (later : Logs (m.perform a).machine rest more) : Logs m (a :: rest) (log ++ more)

/-! ### One action -/

/-- An instruction that meets no fault is not reported, unless it is unknown. -/
theorem log_execute_of_clean {m : Machine ρ} {i : Instruction}
    (clean : (m.execute i).fault = none) (known : i.isUnknown = false) :
    (m.execute i).log = [] := by
  cases i with
  | unknown word => cases known
  | ret =>
    simp only [execute] at clean ⊢
    split at clean
    · rfl
    · cases clean
  | call target =>
    simp only [execute] at clean ⊢
    split at clean
    · rfl
    · cases clean
  | jumpOffset base =>
    simp only [execute]
    split <;> rfl
  | _ => rfl

/-- A return with an empty call stack is reported. -/
theorem log_execute_ret {m : Machine ρ} (empty : m.stack.depth = 0) :
    (m.execute .ret).log = [.emptyReturn] := by
  simp only [execute, CallStack.pop?_eq_none_iff.2 empty]

/-- A call with a full call stack is reported. -/
theorem log_execute_call {m : Machine ρ} (full : m.stack.depth = 16) (target : UInt16) :
    (m.execute (.call target)).log = [.fullCall target] := by
  simp only [execute, CallStack.push?_eq_none_iff.2 full]

/-- The records of a cycle are its trace and those of its instruction. -/
theorem log_cycle (m : Machine ρ) :
    m.cycle.log = m.trace :: (m.advance.execute m.fetch).log := rfl

/-- A cycle reports its trace, and one warning if it passes over an unknown word or fails. -/
theorem reports_cycle (m : Machine ρ) : m.Reports .cycle m.cycle.log := by
  rw [log_cycle]
  cases fault : m.cycle.fault with
  | some f =>
    rcases cycle_fault_eq_some_iff.1 fault with ⟨fetched, empty, rfl⟩ |
      ⟨target, fetched, full, rfl⟩
    · have log : (m.advance.execute .ret).log = [.emptyReturn] := log_execute_ret empty
      rw [fetched, log]
      exact .emptyReturn fault
    · have log : (m.advance.execute (.call target)).log = [.fullCall target] :=
        log_execute_call (m := m.advance) full target
      rw [fetched, log]
      exact .fullCall fault fetched
  | none =>
    cases known : m.fetch.isUnknown with
    | false =>
      rw [log_execute_of_clean fault known]
      exact .traced fault known
    | true =>
      obtain ⟨word, fetched⟩ : ∃ word, m.fetch = .unknown word := by
        generalize m.fetch = i at known
        cases i with
        | unknown word => exact ⟨word, rfl⟩
        | _ => cases known
      have log : (m.advance.execute (.unknown word)).log = [.skipped word] := rfl
      rw [fetched, log]
      exact .skipped fault fetched

/-- An ordinary action reports what the rules say. -/
theorem reports_perform (m : Machine ρ) {a : Action} (ordinary : a.ordinary) :
    m.Reports a (m.perform a).log := by
  cases a with
  | cycle => exact m.reports_cycle
  | execute i => cases ordinary
  | _ => exact .silent rfl

/-- An action reports in one way at most. -/
theorem Reports.unique {m : Machine ρ} {a : Action} {log log' : List LogRecord}
    (first : m.Reports a log) (second : m.Reports a log') : log' = log := by
  cases first with
  | silent fromHost =>
    cases second with
    | silent _ => rfl
    | _ => cases fromHost
  | traced clean known =>
    cases second with
    | silent fromHost => cases fromHost
    | traced _ _ => rfl
    | skipped _ fetched => rw [fetched] at known; cases known
    | emptyReturn failed => rw [clean] at failed; cases failed
    | fullCall failed _ => rw [clean] at failed; cases failed
  | skipped clean fetched =>
    cases second with
    | silent fromHost => cases fromHost
    | traced _ known => rw [fetched] at known; cases known
    | skipped _ again => rw [fetched] at again; cases again; rfl
    | emptyReturn failed => rw [clean] at failed; cases failed
    | fullCall failed _ => rw [clean] at failed; cases failed
  | emptyReturn failed =>
    cases second with
    | silent fromHost => cases fromHost
    | traced clean _ => rw [clean] at failed; cases failed
    | skipped clean _ => rw [clean] at failed; cases failed
    | emptyReturn _ => rfl
    | fullCall again _ => rw [failed] at again; cases again
  | fullCall failed fetched =>
    cases second with
    | silent fromHost => cases fromHost
    | traced clean _ => rw [clean] at failed; cases failed
    | skipped clean _ => rw [clean] at failed; cases failed
    | emptyReturn again => rw [failed] at again; cases again
    | fullCall _ again => rw [fetched] at again; cases again; rfl

/-- A cycle reports one trace, and no other action reports any. -/
theorem Reports.countP_trace {m : Machine ρ} {a : Action} {log : List LogRecord}
    (h : m.Reports a log) : log.countP (·.level = .trace) = [a].count .cycle := by
  cases h with
  | silent fromHost =>
    cases a with
    | cycle => cases fromHost
    | _ => rfl
  | _ => rfl

/-- An action reports one warning if it fails or passes over an unknown word, and else none. -/
theorem Reports.countP_warn {m : Machine ρ} {a : Action} {log : List LogRecord}
    (h : m.Reports a log) : log.countP (·.level = .warn) =
      [m.perform a].countP (·.fault.isSome) +
        (m.carriedOut a).toList.countP Instruction.isUnknown := by
  cases h with
  | silent fromHost =>
    cases a with
    | cycle => cases fromHost
    | execute i => cases fromHost
    | _ => rfl
  | traced clean known =>
    simp [-cycle_fault, perform, carriedOut, clean, known, trace, LogRecord.level]
  | skipped clean fetched =>
    have unknown : m.fetch.isUnknown = true := by rw [fetched, Instruction.isUnknown]
    simp [-cycle_fault, perform, carriedOut, clean, unknown, trace, LogRecord.level]
  | emptyReturn failed =>
    simp [-cycle_fault, perform, carriedOut, failed, trace, LogRecord.level]
  | fullCall failed fetched =>
    simp [-cycle_fault, perform, carriedOut, failed, trace, LogRecord.level]

/-! ### Runs -/

theorem records_cons (m : Machine ρ) (a : Action) (rest : List Action) :
    m.records (a :: rest) = (m.perform a).log ++ (m.perform a).machine.records rest := rfl

/-- A run of ordinary actions reports what the rules say, action by action. -/
theorem logs_records (m : Machine ρ) {actions : List Action}
    (ordinary : ∀ a ∈ actions, a.ordinary) : m.Logs actions (m.records actions) := by
  induction actions generalizing m with
  | nil => exact .nil
  | cons a rest ih =>
    rw [records_cons]
    exact .cons (m.reports_perform (ordinary a List.mem_cons_self))
      (ih _ fun b hb => ordinary b (List.mem_cons_of_mem a hb))

/-- A run reports in one way at most. -/
theorem Logs.unique {m : Machine ρ} {actions : List Action} {log log' : List LogRecord}
    (first : m.Logs actions log) (second : m.Logs actions log') : log' = log := by
  induction first generalizing log' with
  | nil =>
    cases second
    rfl
  | cons reported _ ih =>
    cases second with
    | cons again later => rw [reported.unique again, ih later]

/-- The rules say of a run of ordinary actions what it reports, and nothing else. -/
theorem logs_iff (m : Machine ρ) {actions : List Action} (ordinary : ∀ a ∈ actions, a.ordinary)
    {log : List LogRecord} : m.Logs actions log ↔ log = m.records actions := by
  have logs : m.Logs actions (m.records actions) := m.logs_records ordinary
  constructor
  · exact logs.unique
  · rintro rfl
    exact logs

/-- A run reports one trace for each cycle. -/
theorem Logs.countP_trace {m : Machine ρ} {actions : List Action} {log : List LogRecord}
    (h : m.Logs actions log) : log.countP (·.level = .trace) = actions.count .cycle := by
  induction h with
  | nil => rfl
  | @cons m a rest log more first later ih =>
    rw [List.countP_append, first.countP_trace, ih, ← List.count_append]
    rfl

/-- A run reports one warning for each action that fails and each unknown word that is passed
over. -/
theorem Logs.countP_warn {m : Machine ρ} {actions : List Action} {log : List LogRecord}
    (h : m.Logs actions log) : log.countP (·.level = .warn) =
      (m.history actions).countP (·.fault.isSome) +
        (m.instructions actions).countP Instruction.isUnknown := by
  induction h with
  | nil => rfl
  | @cons m a rest log more first later ih =>
    have split : m.history (a :: rest) = [m.perform a] ++ (m.perform a).machine.history rest := rfl
    rw [List.countP_append, first.countP_warn, ih, split, List.countP_append, instructions_cons,
      List.countP_append]
    omega

/-- The records of a run of cycles and host actions from any machine are, action by action in
order, a trace for each cycle, with the address and the decoded bytes from before the cycle, then
one warning if the cycle fails or passes over an unknown word, and nothing else.  So there are as
many traces as cycles, and as many warnings as failed cycles and unknown words passed over
together. -/
theorem log_traces_every_cycle (m : Machine ρ) {actions : List Action}
    (ordinary : ∀ a ∈ actions, a.ordinary) :
    (∀ log, m.Logs actions log ↔ log = m.records actions) ∧
    (m.records actions).countP (·.level = .trace) = actions.count .cycle ∧
    (m.records actions).countP (·.level = .warn) =
      (m.history actions).countP (·.fault.isSome) +
        (m.instructions actions).countP Instruction.isUnknown := by
  have logs : m.Logs actions (m.records actions) := m.logs_records ordinary
  exact ⟨fun _ => m.logs_iff ordinary, logs.countP_trace, logs.countP_warn⟩

/-- A program that begins with a word without a meaning and then returns from no call: three cycles
report three traces, and three warnings for one unknown word and two failures. -/
theorem log_traces_every_cycle_of_stray_return :
    let m := fresh [0xFF, 0xFF, 0x00, 0xEE] (CyclicSource.ofPattern [7])
    let actions : List Action := [.cycle, .ticks 2, .cycle, .setDelay 3, .cycle]
    m.Logs actions (m.records actions) ∧
    (m.records actions).countP (·.level = .trace) = 3 ∧
    (m.records actions).countP (·.level = .warn) = 3 := by
  intro m actions
  have ordinary : ∀ a ∈ actions, a.ordinary := by decide
  obtain ⟨logs, traces, warnings⟩ := log_traces_every_cycle m ordinary
  refine ⟨(logs _).2 rfl, ?_, ?_⟩
  · rw [traces]
    decide
  · rw [warnings]
    decide +kernel

end Machine

end Chip8
