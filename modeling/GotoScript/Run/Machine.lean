import GotoScript.Run.Console
import GotoScript.Run.Evaluation
import GotoScript.Run.Labels

/-!
# Running programs

A machine executes one statement at a time, and what it finds outside may change from one to the next.
A jump leads to the last place of its label; running off the end is success. Programs can jump back for
ever, so `run` is told how many statements it may execute at most and says when they were not enough.
-/

namespace GotoScript

/-- The state of a run. -/
structure Machine where
  /-- The number of the statement that comes next. -/
  counter : Nat := 0
  environment : Environment := {}
  console : Console
  /-- What has happened, the latest first. -/
  events : List Event := []

/-- What a run is made of: the statements, and where labels lead. -/
structure Code where
  statements : Array Statement
  labels : LabelIndex

/-- A runtime error and the statement where it happened. -/
structure Failed where
  error : RuntimeError
  position : Position
deriving DecidableEq, Repr

namespace Machine

/-! ## One statement -/

/-- Where a statement leads. -/
inductive Flow where
  | next
  | goto (target : Nat)
deriving DecidableEq, Repr

/-- Evaluates an expression in the machine's environment. -/
def evaluate (host : Host) (m : Machine) (e : Expr) : Except RuntimeError Value × Machine :=
  let (result, events) := (e.eval host m.environment).run m.events
  (result, { m with events })

/-- Follows a label. -/
def follow (labels : LabelIndex) (label : String) : Except RuntimeError Flow :=
  (labels.resolve label).map .goto

/-- Executes what a statement says. -/
def execute (host : Host) (labels : LabelIndex) (m : Machine) (action : Action) :
    Except RuntimeError Flow × Machine :=
  match action with
  | .label _ => (.ok .next, m)
  | .assign (.var name) value =>
    match m.evaluate host value with
    | (.ok v, m) => (.ok .next, { m with environment := m.environment.set name v })
    | (.error e, m) => (.error e, m)
  | .assign _ _ => (.error .unsupportedAssignmentTarget, m)
  | .branch condition whenTrue whenFalse =>
    match m.evaluate host condition with
    | (.ok (.bool true), m) => (follow labels whenTrue, m)
    | (.ok (.bool false), m) =>
      match whenFalse with
      | some label => (follow labels label, m)
      | none => (.ok .next, m)
    | (.ok v, m) => (.error (.nonBooleanCondition v.tag), m)
    | (.error e, m) => (.error e, m)
  | .jump label => (follow labels label, m)
  | .print e =>
    match m.evaluate host e with
    | (.ok v, m) =>
      match m.console.print v.shown with
      | (true, console) => (.ok .next, { m with console })
      | (false, console) => (.error (.output Console.full), { m with console })
    | (.error e, m) => (.error e, m)
  | .evaluate e =>
    match m.evaluate host e with
    | (.ok _, m) => (.ok .next, m)
    | (.error e, m) => (.error e, m)

/-- What a machine does next: it has finished, or it goes on, or it has failed. -/
inductive Step where
  | finished
  | running (m : Machine)
  | failed (failure : Failed) (m : Machine)

/-- Executes the next statement. Labels are passed over without a trace. -/
def step (host : Host) (code : Code) (m : Machine) : Step :=
  match code.statements[m.counter]? with
  | none => .finished
  | some statement =>
    if statement.labelName?.isSome then .running { m with counter := m.counter + 1 }
    else
      let m := { m with events := .executing m.counter statement.position :: m.events }
      match m.execute host code.labels statement.action with
      | (.ok .next, m) => .running { m with counter := m.counter + 1 }
      | (.ok (.goto target), m) => .running { m with counter := target }
      | (.error e, m) => .failed ⟨e, statement.position⟩ m

end Machine

/-! ## Whole runs -/

/-- The outside of a run: the host that a statement finds, by what has happened before it, the latest
first. Between two statements the clock moves on, services change their state and others are registered.
Each statement but a label leaves an event, so no two of them need to find the same host. -/
abbrev World := List Event → Host

namespace Machine

/-- Runs to the end or to a failure, unless that takes more than `fuel` statements. -/
def run (world : World) (code : Code) : Nat → Machine → Option (Except Failed Unit × Machine)
  | 0, _ => none
  | fuel + 1, m =>
    match m.step (world m.events) code with
    | .finished => some (.ok (), m)
    | .running m => run world code fuel m
    | .failed failure m => some (.error failure, m)

/-- A machine before its first statement, with the events of the labels. -/
def start (p : Program) (console : Console) (environment : Environment := {}) : Code × Machine :=
  let (labels, replaced) := LabelIndex.ofProgram p
  (⟨p.statements.toArray, labels⟩,
    { environment, console,
      events := .started p.statements.length labels.size :: replaced.reverse })

end Machine

/-! ## One run after another -/

/-- What programs are run on: the console that they share, and the variables of the one that is run. -/
structure Interpreter where
  console : Console
  environment : Environment := {}

/-- How a run ended, and what happened in it. -/
structure RunReport where
  outcome : Except Failed Unit
  events : List Event

namespace Interpreter

/-- Forgets all variables. -/
def reset (i : Interpreter) : Interpreter :=
  { i with environment := {} }

/-- Runs a program. The variables are reset before the run and again after it, however it ends. -/
def interpret (world : World) (fuel : Nat) (p : Program) (i : Interpreter) :
    Option (RunReport × Interpreter) :=
  let i := i.reset
  let (code, machine) := Machine.start p i.console i.environment
  (machine.run world code fuel).map fun (outcome, m) =>
    (⟨outcome, m.events.reverse⟩, reset ⟨m.console, m.environment⟩)

end Interpreter

end GotoScript
