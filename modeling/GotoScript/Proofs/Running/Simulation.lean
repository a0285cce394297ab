import GotoScript.Proofs.Running.Runs

/-!
# Machines that run alike

What a statement does depends on the variables alone: the label it leads to, the line it prints, the
variables after it. The console decides only whether the line is taken, and the program only where the
label leads. So two machines can be compared statement by statement.

* `Action.effect`, `Machine.execute_eq`, `Machine.step_of_statement` : a step as the effect of its
  statement, with the console and the labels put in afterwards;
* `Machine.Step.Matches R` : steps that end alike, or lead to states related by `R`;
* `Machine.Stutters` : machines that take matching steps, where the first may take others in between;
  `Machine.Stutters.exists_run`, `Machine.Stutters.exists_run_of_stuttered` : if one of them ends, so
  does the other, and alike.
-/

namespace GotoScript

/-! ## Effects -/

/-- What a statement does. -/
structure Effect where
  /-- The label that it leads to, if there is one, or why it fails. -/
  lead : Except RuntimeError (Option String)
  /-- The variables after it. -/
  environment : Environment
  /-- The line that it prints. -/
  line? : Option String
  /-- What happens in it, the latest first. -/
  events : List Event

/-- The effect of a statement that has nothing to do but to evaluate an expression. -/
def Expr.effect (host : Host) (env : Environment) (e : Expr)
    (use : Value → Except RuntimeError (Option String) × Environment × Option String) : Effect :=
  match e.value host env with
  | .ok v => ⟨(use v).1, (use v).2.1, (use v).2.2, e.effects host env⟩
  | .error error => ⟨.error error, env, none, e.effects host env⟩

namespace Action

/-- The label that a branch leads to once its condition is known. -/
def chosen (whenTrue : String) (whenFalse : Option String) :
    Value → Except RuntimeError (Option String)
  | .bool true => .ok (some whenTrue)
  | .bool false => .ok whenFalse
  | v => .error (.nonBooleanCondition v.tag)

def effect (host : Host) (env : Environment) : Action → Effect
  | .label _ => ⟨.ok none, env, none, []⟩
  | .jump name => ⟨.ok (some name), env, none, []⟩
  | .branch condition whenTrue whenFalse =>
    condition.effect host env fun v => (chosen whenTrue whenFalse v, env, none)
  | .print e => e.effect host env fun v => (.ok none, env, some v.shown)
  | .assign (.var name) e => e.effect host env fun v => (.ok none, env.set name v, none)
  | .assign _ _ => ⟨.error .unsupportedAssignmentTarget, env, none, []⟩
  | .evaluate e => e.effect host env fun _ => (.ok none, env, none)

/-- The labels that a statement names to go to. -/
def targets : Action → List String
  | .jump name => [name]
  | .branch _ whenTrue whenFalse => whenTrue :: whenFalse.toList
  | _ => []

/-- What effects statements have. -/
inductive HasEffect (action : Action) : Effect → Prop where
  | next {env : Environment} {events : List Event} : HasEffect action ⟨.ok none, env, none, events⟩
  | leads {name : String} {env : Environment} {events : List Event} (h : name ∈ action.targets) :
    HasEffect action ⟨.ok (some name), env, none, events⟩
  | prints {text : String} {env : Environment} {events : List Event} :
    HasEffect action ⟨.ok none, env, some text, events⟩
  | fails {error : RuntimeError} {env : Environment} {events : List Event}
    (h : ∀ reason, error ≠ .output reason) : HasEffect action ⟨.error error, env, none, events⟩

theorem hasEffect_of_expr {host : Host} {env : Environment} {action : Action} {e : Expr}
    {use : Value → Except RuntimeError (Option String) × Environment × Option String}
    (h : ∀ v, HasEffect action ⟨(use v).1, (use v).2.1, (use v).2.2, e.effects host env⟩) :
    HasEffect action (e.effect host env use) := by
  unfold Expr.effect
  split
  case h_1 v _ => exact h v
  case h_2 error herror =>
    refine .fails fun reason hreason => ?_
    subst hreason
    exact Expr.origin_of_value herror rfl

theorem hasEffect (host : Host) (env : Environment) (action : Action) :
    HasEffect action (action.effect host env) := by
  cases action with
  | label => exact .next
  | jump name => exact .leads (List.mem_singleton_self name)
  | branch condition whenTrue whenFalse =>
      refine hasEffect_of_expr fun v => ?_
      unfold chosen
      split
      · exact .leads List.mem_cons_self
      · cases whenFalse with
        | none => exact .next
        | some name => exact .leads (List.mem_cons_of_mem _ (List.mem_singleton_self name))
      · exact .fails nofun
  | print e => exact hasEffect_of_expr fun v => .prints
  | evaluate e => exact hasEffect_of_expr fun v => .next
  | assign target e =>
      cases target with
      | var name => exact hasEffect_of_expr fun v => .next
      | _ => exact .fails nofun

end Action

/-- Prints a line, if there is one, and says whether all of it was taken. -/
def Console.offer (c : Console) : Option String → Bool × Console
  | none => (true, c)
  | some text => c.print text

namespace LabelIndex

/-- Where a statement leads. -/
def flow (labels : LabelIndex) : Except RuntimeError (Option String) → Except RuntimeError Machine.Flow
  | .ok none => .ok .next
  | .ok (some name) => Machine.follow labels name
  | .error error => .error error

end LabelIndex

theorem Statement.labelName?_eq_some_iff {s : Statement} {name : String} :
    s.labelName? = some name ↔ s.action = .label name := by
  rw [labelName?.eq_def]
  cases s.action <;> simp

namespace Machine

variable {host : Host} {code : Code} {m : Machine}

/-! ## Steps by their effects -/

/-- The machine after an effect, still at its statement. -/
def apply (m : Machine) (effect : Effect) : Machine :=
  { m with
    environment := effect.environment,
    console := (m.console.offer effect.line?).2,
    events := effect.events ++ m.events }

/-- Where an effect leads. What could not be printed leads nowhere. -/
def flowOf (labels : LabelIndex) (m : Machine) (effect : Effect) : Except RuntimeError Flow :=
  if (m.console.offer effect.line?).1 then labels.flow effect.lead
  else .error (.output Console.full)

theorem execute_eq (labels : LabelIndex) (m : Machine) (action : Action) :
    m.execute host labels action =
      (m.flowOf labels (action.effect host m.environment),
        m.apply (action.effect host m.environment)) := by
  cases action with
  | label | jump => rfl
  | branch condition whenTrue whenFalse =>
      rw [execute_branch, Action.effect, Expr.effect]
      cases condition.value host m.environment with
      | error e => rfl
      | ok v =>
          cases v with
          | bool b =>
              cases b with
              | true => rfl
              | false => cases whenFalse <;> rfl
          | _ => rfl
  | print e =>
      rw [execute_print, Action.effect, Expr.effect]
      cases e.value host m.environment <;> rfl
  | evaluate e =>
      rw [execute, evaluate_eq, Action.effect, Expr.effect]
      cases e.value host m.environment <;> rfl
  | assign target e =>
      cases target with
      | var name =>
          rw [execute, evaluate_eq, Action.effect, Expr.effect]
          cases e.value host m.environment <;> rfl
      | _ => rfl

/-- The machine when it comes to a statement. -/
def enter (m : Machine) (position : Position) : Machine :=
  { m with events := .executing m.counter position :: m.events }

/-- Goes where a statement leads. -/
def go (m : Machine) (position : Position) : Except RuntimeError Flow → Step
  | .ok .next => .running { m with counter := m.counter + 1 }
  | .ok (.goto target) => .running { m with counter := target }
  | .error error => .failed ⟨error, position⟩ m

theorem step_of_none (h : code.statements[m.counter]? = none) : m.step host code = .finished := by
  rw [step, h]

theorem step_of_label {s : Statement} (h : code.statements[m.counter]? = some s)
    (hlabel : s.labelName?.isSome) :
    m.step host code = .running { m with counter := m.counter + 1 } := by
  rw [step, h]
  exact if_pos hlabel

theorem step_of_statement {s : Statement} (h : code.statements[m.counter]? = some s)
    (hlabel : ¬ s.labelName?.isSome) :
    m.step host code =
      ((m.enter s.position).apply (s.action.effect host m.environment)).go s.position
        (m.flowOf code.labels (s.action.effect host m.environment)) := by
  have hexecute : (m.enter s.position).execute host code.labels s.action =
      (m.flowOf code.labels (s.action.effect host m.environment),
        (m.enter s.position).apply (s.action.effect host m.environment)) := execute_eq ..
  rw [enter] at hexecute ⊢
  rw [step, h]
  dsimp only
  rw [if_neg hlabel, hexecute]
  rcases m.flowOf code.labels (s.action.effect host m.environment) with _ | _ | _ <;> rfl

/-! ## Steps that match -/

/-- Steps that end alike, or lead to related states. -/
inductive Step.Matches (R : Machine → Machine → Prop) : Step → Step → Prop where
  | finished : Matches R .finished .finished
  | running {m n : Machine} (h : R m n) : Matches R (.running m) (.running n)
  | failed {failure : Failed} {m n : Machine} (h : R m n) :
    Matches R (.failed failure m) (.failed failure n)

variable {R : Machine → Machine → Prop} {code' : Code} {n : Machine}

/-- Related states take matching steps, or the first takes one that the second does not. These steps
come to an end, because each brings `rank` down. -/
def Stutters (world : World) (code code' : Code) (rank : Machine → Nat)
    (R : Machine → Machine → Prop) : Prop :=
  ∀ m n, R m n →
    (∃ m', m.step (world m.events) code = .running m' ∧ R m' n ∧ rank m' < rank m) ∨
      Step.Matches R (m.step (world m.events) code) (n.step (world n.events) code')

variable {world : World} {rank : Machine → Nat} {outcome : Except Failed Unit}

theorem Stutters.exists_run (hs : Stutters world code code' rank R) (h : R m n) {fuel : Nat}
    {m' : Machine} (hrun : m.run world code fuel = some (outcome, m')) :
    ∃ fuel' n', n.run world code' fuel' = some (outcome, n') ∧ R m' n' := by
  induction fuel generalizing m n with
  | zero => cases hrun
  | succ fuel ih =>
      rcases hs m n h with ⟨m₁, hstep, hrel, -⟩ | hmatch
      · rw [run_succ_of_running hstep] at hrun
        exact ih hrel hrun
      · rw [run] at hrun
        generalize hm : m.step (world m.events) code = step,
          hn : n.step (world n.events) code' = step' at hmatch
        rw [hm] at hrun
        cases hmatch with
        | finished =>
            cases hrun
            exact ⟨1, n, by rw [run, hn], h⟩
        | running hrel =>
            obtain ⟨fuel', n', hrun', hend⟩ := ih hrel hrun
            exact ⟨fuel' + 1, n', by rw [run, hn]; exact hrun', hend⟩
        | failed hrel =>
            cases hrun
            exact ⟨1, _, by rw [run, hn], hrel⟩

theorem Stutters.exists_run_of_stuttered (hs : Stutters world code code' rank R) (h : R m n)
    {fuel : Nat} {n' : Machine} (hrun : n.run world code' fuel = some (outcome, n')) :
    ∃ fuel' m', m.run world code fuel' = some (outcome, m') ∧ R m' n' := by
  -- on the steps of the second machine and, between two of them, on the rank of the first
  induction fuel generalizing m n with
  | zero => cases hrun
  | succ fuel ih =>
      induction hrank : rank m using Nat.strongRecOn generalizing m with
      | ind r ihrank =>
          rcases hs m n h with ⟨m₁, hstep, hrel, hless⟩ | hmatch
          · obtain ⟨fuel', m', hrun', hend⟩ := ihrank (rank m₁) (hrank ▸ hless) hrel rfl
            exact ⟨fuel' + 1, m', by rw [run_succ_of_running hstep]; exact hrun', hend⟩
          · rw [run] at hrun
            generalize hm : m.step (world m.events) code = step,
              hn : n.step (world n.events) code' = step' at hmatch
            rw [hn] at hrun
            cases hmatch with
            | finished =>
                cases hrun
                exact ⟨1, m, by rw [run, hm], h⟩
            | running hrel =>
                obtain ⟨fuel', m', hrun', hend⟩ := ih hrel hrun
                exact ⟨fuel' + 1, m', by rw [run, hm]; exact hrun', hend⟩
            | failed hrel =>
                cases hrun
                exact ⟨1, _, by rw [run, hm], hrel⟩

end Machine

end GotoScript
