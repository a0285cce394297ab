import GotoScript.Proofs.Running.Evaluation
import Mathlib.Logic.Relation

/-!
# Steps and runs

What one statement can do, said once, and how a whole run follows from its steps.

* `Action.destination?` : the label that a statement leads to; `Action.Fault` : what it can fail with
  besides a label that leads nowhere;
* `Machine.StepSpec`, `Machine.stepSpec_step` : all that a step can do to the counter, and its failures;
* `Machine.Reaches` : the states of a run; `Machine.reaches_of_run`, `Machine.run_of_reaches` : a run
  ends as one of its states does;
* `Machine.run_congr` : code that agrees at every state of a run gives the same run;
* `Interpreter.interpret_eq`, `Interpreter.interpret_eq_some_iff` : from machines to interpreters;
* `Program.Reaches`, `Interpreter.fails_iff` : the states of a program, and where it fails.
-/

namespace GotoScript

/-! ## What a statement does -/

/-- The label that a statement leads to. A branch leads to the label that its condition chooses. -/
def Action.destination? (host : Host) (env : Environment) : Action → Option String
  | .jump name => some name
  | .branch condition whenTrue whenFalse =>
    match condition.value host env with
    | .ok (.bool true) => some whenTrue
    | .ok (.bool false) => whenFalse
    | _ => none
  | _ => none

/-- The failures of a statement that leads to no label. -/
inductive Action.Fault (host : Host) (env : Environment) : Action → RuntimeError → Prop where
  | expression {action : Action} {e : Expr} {error : RuntimeError} (he : e ∈ action.exprs)
    (h : e.value host env = .error error) : Fault host env action error
  | condition {condition : Expr} {whenTrue : String} {whenFalse : Option String} {v : Value}
    (h : condition.value host env = .ok v) (hv : ∀ b, v ≠ .bool b) :
    Fault host env (.branch condition whenTrue whenFalse) (.nonBooleanCondition v.tag)
  | target {target value : Expr} (h : ∀ name, target ≠ .var name) :
    Fault host env (.assign target value) .unsupportedAssignmentTarget
  | output {e : Expr} {reason : String} : Fault host env (.print e) (.output reason)

namespace Machine

variable {host : Host} {labels : LabelIndex} {m : Machine}

theorem execute_branch (condition : Expr) (whenTrue : String) (whenFalse : Option String) :
    m.execute host labels (.branch condition whenTrue whenFalse) =
      (match condition.value host m.environment with
        | .ok (.bool true) => follow labels whenTrue
        | .ok (.bool false) =>
          match whenFalse with
          | some label => follow labels label
          | none => .ok .next
        | .ok v => .error (.nonBooleanCondition v.tag)
        | .error e => .error e,
        { m with events := condition.effects host m.environment ++ m.events }) := by
  rw [execute, evaluate_eq]
  cases condition.value host m.environment with
  | error e => rfl
  | ok v =>
      cases v with
      | bool b =>
          cases b with
          | true => rfl
          | false => cases whenFalse <;> rfl
      | _ => rfl

theorem execute_print (e : Expr) :
    m.execute host labels (.print e) =
      match e.value host m.environment with
      | .ok v =>
        (if (m.console.print v.shown).1 then .ok .next else .error (.output Console.full),
          { m with
            console := (m.console.print v.shown).2,
            events := e.effects host m.environment ++ m.events })
      | .error error => (.error error, { m with events := e.effects host m.environment ++ m.events }) := by
  rw [execute, evaluate_eq]
  cases e.value host m.environment with
  | error error => rfl
  | ok v => rcases hp : m.console.print v.shown with ⟨_ | _, console⟩ <;> simp only [hp] <;> rfl

theorem execute_counter (host : Host) (labels : LabelIndex) (m : Machine) (action : Action) :
    (m.execute host labels action).2.counter = m.counter := by
  cases action with
  | label | jump => rfl
  | branch condition whenTrue whenFalse => rw [execute_branch]
  | print e =>
      rw [execute_print]
      cases e.value host m.environment <;> rfl
  | assign target value =>
      cases target with
      | var name =>
          rw [execute, evaluate_eq]
          cases value.value host m.environment <;> rfl
      | _ => rfl
  | evaluate e =>
      rw [execute, evaluate_eq]
      cases e.value host m.environment <;> rfl

theorem execute_of_destination (labels : LabelIndex) (m : Machine) {action : Action} {label : String}
    (h : action.destination? host m.environment = some label) :
    (m.execute host labels action).1 = follow labels label := by
  cases action with
  | jump =>
      cases h
      rfl
  | branch condition whenTrue whenFalse =>
      rw [execute_branch]
      rw [Action.destination?] at h
      split at h
      case h_1 hv =>
        cases h
        rw [hv]
      case h_2 hv => rw [hv, h]
      case h_3 => cases h
  | _ => cases h

theorem execute_of_no_destination (labels : LabelIndex) (m : Machine) {action : Action}
    (h : action.destination? host m.environment = none) :
    (m.execute host labels action).1 = .ok .next ∨
      ∃ error, (m.execute host labels action).1 = .error error ∧
        action.Fault host m.environment error := by
  cases action with
  | label => exact .inl rfl
  | jump => cases h
  | branch condition whenTrue whenFalse =>
      rw [execute_branch]
      rw [Action.destination?] at h
      cases hv : condition.value host m.environment with
      | error e => exact .inr ⟨e, rfl, .expression List.mem_cons_self hv⟩
      | ok v =>
          rw [hv] at h
          cases v with
          | bool b =>
              cases b with
              | true => cases h
              | false =>
                  cases h
                  exact .inl rfl
          | _ => exact .inr ⟨_, rfl, .condition hv nofun⟩
  | print e =>
      rw [execute_print]
      cases hv : e.value host m.environment with
      | error error => exact .inr ⟨error, rfl, .expression List.mem_cons_self hv⟩
      | ok v =>
          dsimp only
          split
          · exact .inl rfl
          · exact .inr ⟨_, rfl, .output⟩
  | assign target value =>
      cases target with
      | var name =>
          rw [execute, evaluate_eq]
          cases hv : value.value host m.environment with
          | error error => exact .inr ⟨error, rfl, .expression (by simp [Action.exprs]) hv⟩
          | ok v => exact .inl rfl
      | _ => exact .inr ⟨_, rfl, .target nofun⟩
  | evaluate e =>
      rw [execute, evaluate_eq]
      cases hv : e.value host m.environment with
      | error error => exact .inr ⟨error, rfl, .expression List.mem_cons_self hv⟩
      | ok v => exact .inl rfl

/-! ## One step -/

/-- What a step can do. -/
inductive StepSpec (host : Host) (code : Code) (m : Machine) : Step → Prop where
  /-- There is no statement left. -/
  | finished (h : code.statements[m.counter]? = none) : StepSpec host code m .finished
  /-- The statement leads to the one after it. -/
  | next {s : Statement} {m' : Machine} (hs : code.statements[m.counter]? = some s)
    (hd : s.action.destination? host m.environment = none) (hc : m'.counter = m.counter + 1) :
    StepSpec host code m (.running m')
  /-- The statement leads to a label of the program. -/
  | jump {s : Statement} {label : String} {m' : Machine} (hs : code.statements[m.counter]? = some s)
    (hd : s.action.destination? host m.environment = some label)
    (hl : code.labels.targets.find? label = some m'.counter) : StepSpec host code m (.running m')
  /-- The statement leads to a label that is not there. -/
  | lost {s : Statement} {label : String} {m' : Machine} (hs : code.statements[m.counter]? = some s)
    (hd : s.action.destination? host m.environment = some label)
    (hl : code.labels.targets.find? label = none) :
    StepSpec host code m (.failed ⟨.labelNotFound label, s.position⟩ m')
  | fault {s : Statement} {error : RuntimeError} {m' : Machine}
    (hs : code.statements[m.counter]? = some s)
    (hd : s.action.destination? host m.environment = none)
    (hf : s.action.Fault host m.environment error) :
    StepSpec host code m (.failed ⟨error, s.position⟩ m')

theorem stepSpec_step (host : Host) (code : Code) (m : Machine) :
    StepSpec host code m (m.step host code) := by
  rw [step]
  cases hs : code.statements[m.counter]? with
  | none => exact .finished hs
  | some s =>
      dsimp only
      split
      case isTrue hlabel =>
        refine .next hs ?_ rfl
        rw [Statement.labelName?] at hlabel
        split at hlabel
        case h_1 ha =>
          rw [ha]
          rfl
        case h_2 => cases hlabel
      case isFalse =>
        -- The event of the statement changes neither the counter nor the environment.
        generalize hentered :
          ({ m with events := .executing m.counter s.position :: m.events } : Machine) = entered
        have hcounter : entered.counter = m.counter := by rw [← hentered]
        have henv : entered.environment = m.environment := by rw [← hentered]
        have hkept := execute_counter host code.labels entered s.action
        rcases hx : entered.execute host code.labels s.action with ⟨result, m'⟩
        rw [hx, hcounter] at hkept
        cases hd : s.action.destination? host m.environment with
        | some label =>
            have hresult := execute_of_destination code.labels entered (henv ▸ hd)
            rw [hx] at hresult
            subst hresult
            rw [follow, LabelIndex.resolve]
            cases hl : code.labels.targets.find? label with
            | none => exact .lost hs hd hl
            | some target => exact .jump hs hd hl
        | none =>
            have hresult := execute_of_no_destination code.labels entered (henv ▸ hd)
            rw [hx, henv] at hresult
            rcases hresult with hnext | ⟨error, herr, hfault⟩
            · subst hnext
              exact .next hs hd (congrArg (· + 1) hkept)
            · subst herr
              exact .fault hs hd hfault

/-! ## Whole runs -/

/-- From the first state a run comes to the second. Each statement finds the host of its own time. -/
abbrev Reaches (world : World) (code : Code) : Machine → Machine → Prop :=
  Relation.ReflTransGen fun m m' => m.step (world m.events) code = .running m'

/-- How a run ends in this state, if it does. -/
def ending? (host : Host) (code : Code) (m : Machine) : Option (Except Failed Unit × Machine) :=
  match m.step host code with
  | .finished => some (.ok (), m)
  | .running _ => none
  | .failed failure m => some (.error failure, m)

variable {world : World} {code : Code}

theorem run_succ_of_running {m m' : Machine} (h : m.step (world m.events) code = .running m')
    (fuel : Nat) : m.run world code (fuel + 1) = m'.run world code fuel := by
  rw [run, h]

theorem run_succ_of_ending {m : Machine} {r : Except Failed Unit × Machine}
    (h : m.ending? (world m.events) code = some r) (fuel : Nat) :
    m.run world code (fuel + 1) = some r := by
  rw [ending?] at h
  rw [run]
  cases hs : m.step (world m.events) code with
  | running m' =>
      rw [hs] at h
      cases h
  | finished | failed =>
      rw [hs] at h
      exact h

theorem ending?_eq_error_iff {m m' : Machine} {failure : Failed} :
    m.ending? host code = some (.error failure, m') ↔ m.step host code = .failed failure m' := by
  rw [ending?]
  cases m.step host code <;> simp

theorem running_or_ending (host : Host) (code : Code) (m : Machine) :
    (∃ m', m.step host code = .running m') ∨ ∃ r, m.ending? host code = some r := by
  cases h : m.step host code with
  | finished => exact .inr ⟨_, by rw [ending?, h]⟩
  | running m' => exact .inl ⟨m', rfl⟩
  | failed failure m' => exact .inr ⟨_, by rw [ending?, h]⟩

theorem reaches_of_run {fuel : Nat} {m : Machine} {r : Except Failed Unit × Machine}
    (h : m.run world code fuel = some r) :
    ∃ m', Reaches world code m m' ∧ m'.ending? (world m'.events) code = some r := by
  induction fuel generalizing m with
  | zero => cases h
  | succ fuel ih =>
      rcases running_or_ending (world m.events) code m with ⟨m₁, hs⟩ | ⟨r', hend⟩
      · rw [run_succ_of_running hs] at h
        obtain ⟨m', hreach, hend⟩ := ih h
        exact ⟨m', .head hs hreach, hend⟩
      · rw [run_succ_of_ending hend] at h
        exact ⟨m, .refl, hend.trans h⟩

theorem run_of_reaches {m m' : Machine} {r : Except Failed Unit × Machine}
    (h : Reaches world code m m') (hend : m'.ending? (world m'.events) code = some r) :
    ∃ fuel, m.run world code fuel = some r := by
  induction h using Relation.ReflTransGen.head_induction_on with
  | refl => exact ⟨1, run_succ_of_ending hend 0⟩
  | head hs _ ih =>
      obtain ⟨fuel, hrun⟩ := ih
      exact ⟨fuel + 1, (run_succ_of_running hs fuel).trans hrun⟩

theorem run_congr {code' : Code} {m : Machine}
    (h : ∀ m', Reaches world code m m' →
      m'.step (world m'.events) code' = m'.step (world m'.events) code) (fuel : Nat) :
    m.run world code' fuel = m.run world code fuel := by
  induction fuel generalizing m with
  | zero => rfl
  | succ fuel ih =>
      have hfirst := h m .refl
      rcases running_or_ending (world m.events) code m with ⟨m₁, hs⟩ | ⟨r, hend⟩
      · rw [run_succ_of_running hs, run_succ_of_running (hfirst.trans hs)]
        exact ih fun m' hm' => h m' (.head hs hm')
      · have hend' : m.ending? (world m.events) code' = some r := by rw [ending?, hfirst, ← ending?, hend]
        rw [run_succ_of_ending hend, run_succ_of_ending hend']

end Machine

/-! ## Programs -/

/-- The states that a run of the program comes to. -/
def Program.Reaches (world : World) (console : Console) (p : Program) (m : Machine) : Prop :=
  Machine.Reaches world (Machine.start p console).1 (Machine.start p console).2 m

/-- With the variables reset before and after, a run starts without any and leaves none behind. -/
theorem Interpreter.interpret_eq (world : World) (fuel : Nat) (p : Program) (i : Interpreter) :
    i.interpret world fuel p =
      ((Machine.start p i.console).2.run world (Machine.start p i.console).1 fuel).map fun r =>
        (⟨r.1, r.2.events.reverse⟩, ⟨r.2.console, {}⟩) := by
  rfl

/-- A program ends as its machine does. -/
theorem Interpreter.interpret_eq_some_iff {world : World} {fuel : Nat} {p : Program}
    {i j : Interpreter} {report : RunReport} :
    i.interpret world fuel p = some (report, j) ↔
      ∃ m, (Machine.start p i.console).2.run world (Machine.start p i.console).1 fuel =
          some (report.outcome, m) ∧ report.events = m.events.reverse ∧ j = ⟨m.console, {}⟩ := by
  rw [interpret_eq, Option.map_eq_some_iff]
  constructor
  · rintro ⟨⟨outcome, m⟩, hrun, heq⟩
    cases heq
    exact ⟨m, hrun, rfl, rfl⟩
  · rintro ⟨m, hrun, hevents, rfl⟩
    obtain ⟨outcome, events⟩ := report
    cases hevents
    exact ⟨(outcome, m), hrun, rfl⟩

/-- A program fails if one of the states that it comes to does. -/
theorem Interpreter.fails_iff {world : World} {p : Program} {i : Interpreter} {failure : Failed} :
    (∃ fuel report j, i.interpret world fuel p = some (report, j) ∧ report.outcome = .error failure) ↔
      ∃ m m', p.Reaches world i.console m ∧
        m.step (world m.events) (Machine.start p i.console).1 = .failed failure m' := by
  constructor
  · rintro ⟨fuel, report, j, hrun, hout⟩
    obtain ⟨last, hrun, -, -⟩ := interpret_eq_some_iff.1 hrun
    rw [hout] at hrun
    obtain ⟨m, hreach, hend⟩ := Machine.reaches_of_run hrun
    exact ⟨m, last, hreach, Machine.ending?_eq_error_iff.1 hend⟩
  · rintro ⟨m, m', hreach, hs⟩
    obtain ⟨fuel, hrun⟩ := Machine.run_of_reaches hreach (Machine.ending?_eq_error_iff.2 hs)
    exact ⟨fuel, ⟨.error failure, m'.events.reverse⟩, ⟨m'.console, {}⟩,
      interpret_eq_some_iff.2 ⟨m', hrun, rfl, rfl⟩, rfl⟩

end GotoScript
