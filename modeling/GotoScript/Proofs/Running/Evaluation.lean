import GotoScript.Proofs.Parsing.Shape
import GotoScript.Run.Machine

/-!
# What evaluation is built from

An evaluation returns values, raises errors, records events and does one thing after another; it never
looks at the events that stand before its own. `Eval.Built allowed` says so, with the errors that may be
raised, and one induction over expressions shows it of every evaluation.

* `RuntimeError.origin` : errors come from values, from the form of a chain, or from a statement;
* `Expr.eval_built` : evaluating raises errors of values, and those that the form of its chains allows;
* `Expr.value`, `Expr.effects`, `Machine.evaluate_eq` : the result and the added events are functions of
  the expression and the environment;
* `Expr.allowed_of_value`, `Expr.origin_of_value` : the errors of an expression are allowed ones, and never
  those of a statement.
-/

namespace GotoScript

/-! ## Where errors come from -/

/-- What an error is about. -/
inductive RuntimeError.Origin where
  /-- The values that an expression meets. -/
  | values
  /-- A chain that no program text spells. -/
  | form
  /-- A statement, whatever its expressions give. -/
  | statement
deriving DecidableEq

def RuntimeError.origin : RuntimeError → Origin
  | .unknownOperator _ | .emptyChain => .form
  | .labelNotFound _ | .nonBooleanCondition _ | .unsupportedAssignmentTarget | .output _ => .statement
  | _ => .values

variable {error : RuntimeError}

theorem Environment.origin_get {env : Environment} {name : String}
    (h : env.get name = .error error) : error.origin = .values := by
  rw [Environment.get] at h
  split at h
  · cases h
  · cases h
    rfl

theorem NativeFunction.origin_checkTypes {place : Nat} {types : List TypeTag} {args : List Value}
    (h : checkTypes place types args = .error error) : error.origin = .values := by
  fun_induction checkTypes place types args with
  | case1 _ _ _ _ ih => exact ih h
  | case2 =>
      cases h
      rfl
  | case3 => cases h

theorem NativeFunction.origin_checkArgs {f : NativeFunction} {args : List Value}
    (h : f.checkArgs args = .error error) : error.origin = .values := by
  rw [checkArgs] at h
  split at h
  · exact origin_checkTypes h
  · cases h
    rfl

namespace Value

theorem origin_field {host : Host} {root : Value} {name : String}
    (h : root.field host name = .error error) : error.origin = .values := by
  rw [field.eq_def] at h
  split at h
  · split at h
    · cases h
    · cases h
      rfl
  · split at h
    · cases h
    · cases h
      rfl
  · cases h
    rfl

theorem eq_divisionByZero_of_intOperation {a b : Int64} {op : Operator}
    (h : intOperation a op b = .error error) : error = .divisionByZero := by
  cases op with
  | div | rem =>
      rw [intOperation] at h
      split at h
      · cases h
        rfl
      · cases h
  | _ => cases h

theorem eq_divisionByZero_of_floatOperation {a b : Float} {op : Operator}
    (h : floatOperation a op b = .error error) : error = .divisionByZero := by
  cases op with
  | div | rem =>
      rw [floatOperation] at h
      split at h
      · cases h
        rfl
      · cases h
  | _ => cases h

theorem eq_divisionByZero_of_typedOperation {op : Operator} {left right : Value}
    (h : typedOperation op left right = .error error) : error = .divisionByZero := by
  rw [typedOperation.eq_def] at h
  split at h
  · exact eq_divisionByZero_of_intOperation h
  · exact eq_divisionByZero_of_floatOperation h
  · exact eq_divisionByZero_of_floatOperation h
  · exact eq_divisionByZero_of_floatOperation h
  · cases h
  · cases h

theorem origin_apply {left right : Value} {op : Operator}
    (h : left.apply op right = .error error) : error.origin = .values := by
  rw [apply] at h
  split at h
  · cases h
  split at h
  · cases h
  cases hop : typedOperation op left right with
  | error e =>
      rw [hop] at h
      cases h
      rw [eq_divisionByZero_of_typedOperation hop]
      rfl
  | ok result =>
      rw [hop] at h
      cases result with
      | some value => cases h
      | none =>
          change (if _ then _ else _) = _ at h
          split at h
          · cases h
          · cases h
            rfl

theorem origin_applyAll {first : Value} {operators : List Operator} {values : List Value}
    (h : first.applyAll operators values = .error error) : error.origin = .values := by
  induction operators generalizing first values with
  | nil => cases h
  | cons op operators ih =>
      cases values with
      | nil => cases h
      | cons v values =>
          rw [applyAll] at h
          cases hop : first.apply op v with
          | error e =>
              rw [hop] at h
              cases h
              exact origin_apply hop
          | ok next =>
              rw [hop] at h
              exact ih h

theorem origin_not {v : Value} (h : v.not = .error error) : error.origin = .values := by
  cases v <;> cases h <;> rfl

theorem origin_negate {v : Value} (h : v.negate = .error error) : error.origin = .values := by
  cases v <;> cases h <;> rfl

end Value

theorem Operator.origin_ofTokens {tokens : List Token}
    (h : Operator.ofTokens tokens = .error error) : error.origin = .form := by
  induction tokens with
  | nil => cases h
  | cons t tokens ih =>
      rw [Operator.ofTokens] at h
      split at h
      · cases h
        rfl
      · cases hrest : Operator.ofTokens tokens with
        | error e =>
            rw [hrest] at h
            cases h
            exact ih hrest
        | ok operators =>
            rw [hrest] at h
            cases h

/-! ## Computations -/

namespace Eval

/-- Computations that add events without looking at earlier ones and raise only errors that are
allowed. -/
inductive Built (allowed : RuntimeError → Prop) : {α : Type} → Eval α → Prop where
  | pure {α : Type} (a : α) : Built allowed (pure a : Eval α)
  | throw {α : Type} {error : RuntimeError} (h : allowed error) : Built allowed (throw error : Eval α)
  | record (event : Event) : Built allowed (Eval.record event)
  | bind {α β : Type} {c : Eval α} {next : α → Eval β} (hc : Built allowed c)
    (hnext : ∀ a, Built allowed (next a)) : Built allowed (c >>= next)

variable {allowed : RuntimeError → Prop} {α β : Type}

theorem Built.ofExcept {x : Except RuntimeError α} (h : ∀ error, x = .error error → allowed error) :
    Built allowed (Eval.ofExcept x) := by
  cases x with
  | ok a => exact .pure a
  | error e => exact .throw (h e rfl)

theorem run_bind (c : Eval α) (next : α → Eval β) (events : List Event) :
    (c >>= next).run events =
      match c.run events with
      | (.ok a, added) => (next a).run added
      | (.error e, added) => (.error e, added) := by
  change (ExceptT.bindCont next (c.run events).1 : StateM _ _) (c.run events).2 = _
  rcases c.run events with ⟨_ | a, added⟩ <;> rfl

/-- The events that stand before a computation change neither its result nor what it adds. -/
theorem Built.run_eq {c : Eval α} (h : Built allowed c) :
    ∃ result added, (∀ error, result = .error error → allowed error) ∧
      ∀ events, c.run events = (result, added ++ events) := by
  induction h with
  | pure a => exact ⟨.ok a, [], nofun, fun _ => rfl⟩
  | @throw α error herr =>
      refine ⟨.error error, [], fun e he => ?_, fun _ => rfl⟩
      cases he
      exact herr
  | record event => exact ⟨.ok (), [event], nofun, fun _ => rfl⟩
  | @bind α β c next _ _ ihc ihnext =>
      obtain ⟨first, before, herr, hrun⟩ := ihc
      cases first with
      | error e =>
          refine ⟨.error e, before, fun error he => ?_, fun events => ?_⟩
          · cases he
            exact herr e rfl
          · rw [run_bind, hrun]
      | ok a =>
          obtain ⟨result, added, herr', hrun'⟩ := ihnext a
          refine ⟨result, added ++ before, herr', fun events => ?_⟩
          rw [run_bind, hrun, List.append_assoc]
          exact hrun' (before ++ events)

end Eval

/-! ## Expressions -/

section

open Eval

variable {allowed : RuntimeError → Prop} {host : Host} {env : Environment}

theorem NativeFunction.call_built (hvalues : ∀ error, error.origin = .values → allowed error)
    (f : NativeFunction) (args : List Value) : Built allowed (f.call host args) := by
  have herror (e : RuntimeError) (h : e.origin = .values) {α : Type} :
      Built allowed (throw e : Eval α) := .throw (hvalues e h)
  rw [call.eq_def]
  split
  · exact .pure _
  · dsimp only
    split
    · exact .bind (.record _) fun _ => .pure _
    · exact .pure _
  · refine .bind (.record _) fun _ => ?_
    split
    · exact .pure _
    · exact herror _ rfl
  · exact .bind (.ofExcept fun e he => hvalues e (origin_checkArgs he)) fun _ => herror _ rfl

theorem Value.call_built (hvalues : ∀ error, error.origin = .values → allowed error)
    (callee : Value) (args : List Value) : Built allowed (callee.call host args) := by
  rw [call.eq_def]
  split
  · refine .bind (.ofExcept fun e he => hvalues e (NativeFunction.origin_checkArgs he)) fun _ => ?_
    exact .bind (.record _) fun _ => .bind (NativeFunction.call_built hvalues _ _) fun _ => .pure _
  · exact .throw (hvalues _ rfl)

/-- The errors that a chain has by its form are allowed. -/
def Expr.FormAllowed (allowed : RuntimeError → Prop) : Expr → Prop
  | .chain operands operators =>
    (∀ error, Operator.ofTokens operators = .error error → allowed error) ∧
      (operands = [] → allowed .emptyChain)
  | _ => True

namespace Expr

-- Structural in the expression; an operand list is walked by `evalAll` and by `evalLazily`.
mutual

theorem eval_built (hvalues : ∀ error, error.origin = .values → allowed error) (e : Expr)
    (h : e.Every (FormAllowed allowed)) : Built allowed (e.eval host env) := by
  match e with
  | .int _ | .float _ | .text _ | .bool _ | .null | .serviceRoot =>
      rw [eval]
      exact .pure _
  | .var _ =>
      rw [eval]
      exact .ofExcept fun e he => hvalues e (Environment.origin_get he)
  | .system _ =>
      rw [eval]
      split
      · exact .pure _
      · exact .throw (hvalues _ rfl)
  | .chain [] operators =>
      obtain ⟨⟨hform, hempty⟩, -⟩ := every_chain.1 h
      rw [eval]
      exact .bind (.ofExcept hform) fun _ => .throw (hempty rfl)
  | .chain (first :: rest) operators =>
      obtain ⟨⟨hform, -⟩, hall⟩ := every_chain.1 h
      obtain ⟨hfirst, hrest⟩ := List.forall_mem_cons.1 hall
      rw [eval]
      refine .bind (.ofExcept hform) fun ops => .bind (eval_built hvalues first hfirst) fun v => ?_
      split
      · exact evalLazily_built hvalues v ops rest hrest
      · refine .bind (evalAll_built hvalues rest hrest) fun vs => .ofExcept fun e he => ?_
        exact hvalues e (Value.origin_applyAll he)
  | .field root name =>
      rw [eval]
      refine .bind (eval_built hvalues root (every_field.1 h).2) fun v => .ofExcept fun e he => ?_
      exact hvalues e (Value.origin_field he)
  | .index root key =>
      rw [eval]
      exact .bind (eval_built hvalues root (every_index.1 h).2.1) fun _ => .throw (hvalues _ rfl)
  | .call root args =>
      obtain ⟨-, hroot, hargs⟩ := every_call.1 h
      rw [eval]
      refine .bind (eval_built hvalues root hroot) fun callee => ?_
      exact .bind (evalAll_built hvalues args hargs) fun vs => Value.call_built hvalues callee vs
  | .not operand =>
      rw [eval]
      refine .bind (eval_built hvalues operand (every_not.1 h).2) fun v => .ofExcept fun e he => ?_
      exact hvalues e (Value.origin_not he)
  | .negate operand =>
      rw [eval]
      refine .bind (eval_built hvalues operand (every_negate.1 h).2) fun v =>
        .ofExcept fun e he => ?_
      exact hvalues e (Value.origin_negate he)

theorem evalAll_built (hvalues : ∀ error, error.origin = .values → allowed error) (es : List Expr)
    (h : ∀ e ∈ es, e.Every (FormAllowed allowed)) : Built allowed (evalAll host env es) := by
  match es with
  | [] =>
      rw [evalAll]
      exact .pure _
  | e :: rest =>
      obtain ⟨hfirst, hrest⟩ := List.forall_mem_cons.1 h
      rw [evalAll]
      refine .bind (eval_built hvalues e hfirst) fun v => ?_
      exact .bind (evalAll_built hvalues rest hrest) fun vs => .pure _

theorem evalLazily_built (hvalues : ∀ error, error.origin = .values → allowed error) (acc : Value)
    (operators : List Operator) (es : List Expr) (h : ∀ e ∈ es, e.Every (FormAllowed allowed)) :
    Built allowed (evalLazily host env acc operators es) := by
  match operators, es with
  | op :: operators, e :: rest =>
      obtain ⟨hfirst, hrest⟩ := List.forall_mem_cons.1 h
      rw [evalLazily]
      split
      · exact evalLazily_built hvalues acc operators rest hrest
      · refine .bind (eval_built hvalues e hfirst) fun right => ?_
        refine .bind (.ofExcept fun e he => hvalues e (Value.origin_apply he)) fun next => ?_
        exact evalLazily_built hvalues next operators rest hrest
  | [], _ =>
      rw [evalLazily.eq_def]
      exact .pure _
  | _ :: _, [] =>
      rw [evalLazily.eq_def]
      exact .pure _

end

end Expr

end

/-! ## Results -/

namespace Expr

variable {host : Host} {env : Environment}

/-- What the expression evaluates to. -/
def value (host : Host) (env : Environment) (e : Expr) : Except RuntimeError Value :=
  ((e.eval host env).run []).1

/-- The events of evaluating the expression, the latest first. -/
def effects (host : Host) (env : Environment) (e : Expr) : List Event :=
  ((e.eval host env).run []).2

theorem every_formAllowed (e : Expr) : e.Every (FormAllowed (·.origin ≠ .statement)) := by
  intro x _
  cases x with
  | chain operands operators =>
      refine ⟨fun error herr => ?_, fun _ => by decide⟩
      change error.origin ≠ .statement
      rw [Operator.origin_ofTokens herr]
      decide
  | _ => trivial

theorem run_eval (e : Expr) (events : List Event) :
    (e.eval host env).run events = (e.value host env, e.effects host env ++ events) := by
  have hbuilt : Eval.Built (·.origin ≠ .statement) (e.eval host env) :=
    eval_built (fun error h => by rw [h]; decide) e (every_formAllowed e)
  obtain ⟨result, added, -, hrun⟩ := hbuilt.run_eq
  rw [value, effects, hrun, hrun, List.append_nil]

theorem allowed_of_value {allowed : RuntimeError → Prop}
    (hvalues : ∀ error, error.origin = .values → allowed error) {e : Expr}
    (h : e.Every (FormAllowed allowed)) {error : RuntimeError}
    (herr : e.value host env = .error error) : allowed error := by
  have hbuilt : Eval.Built allowed (e.eval host env) := eval_built hvalues e h
  obtain ⟨result, added, hresult, hrun⟩ := hbuilt.run_eq
  rw [value, hrun] at herr
  exact hresult error herr

/-- An expression never has an error of a statement. -/
theorem origin_of_value {e : Expr} {error : RuntimeError} (h : e.value host env = .error error) :
    error.origin ≠ .statement :=
  allowed_of_value (fun error h => by rw [h]; decide) (every_formAllowed e) h

end Expr

theorem Machine.evaluate_eq (host : Host) (m : Machine) (e : Expr) :
    m.evaluate host e =
      (e.value host m.environment, { m with events := e.effects host m.environment ++ m.events }) := by
  rw [evaluate, Expr.run_eval]

end GotoScript
