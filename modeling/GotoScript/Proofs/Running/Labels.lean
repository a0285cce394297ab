import GotoScript.Proofs.Running.Runs
import Mathlib.Data.List.Forall2
import Mathlib.Order.Bounds.Basic

/-!
# Where runs go

Jumps follow labels, and a label leads to the last place where it is given.

* `labelPlaces` : the places of a label; `LabelIndex.find?_ofProgram_eq_some_iff`,
  `LabelIndex.find?_ofProgram_eq_none_iff` : the index knows the greatest of them, if there is one;
* `Program.counter_le_of_step`, `Program.counter_of_jump` : where the counter goes in one step;
* `Program.fails_labelNotFound_iff` : which runs fail for a label that is not there;
* `Program.SameButTargets`, `Program.interpret_eq_of_sameButTargets` : labels that are never followed
  do not matter;
* `Program.runs_follow_labels` : all of it for whole runs.
-/

namespace GotoScript

/-! ## The index of labels -/

/-- The places where statements give the label. -/
def labelPlaces (statements : List Statement) (name : String) : Set Nat :=
  {k | ∃ s, statements[k]? = some s ∧ s.labelName? = some name}

variable {s : Statement} {rest statements : List Statement} {name : String} {k : Nat}

theorem isGreatest_labelPlaces_cons (h : IsGreatest (labelPlaces rest name) k) :
    IsGreatest (labelPlaces (s :: rest) name) (k + 1) := by
  obtain ⟨⟨t, ht, hname⟩, hmax⟩ := h
  refine ⟨⟨t, by simpa using ht, hname⟩, ?_⟩
  rintro (_ | j) ⟨t, ht, hname⟩
  · exact Nat.zero_le _
  · exact Nat.succ_le_succ (hmax ⟨t, by simpa using ht, hname⟩)

theorem labelPlaces_eq_empty_iff :
    labelPlaces statements name = ∅ ↔ ∀ s ∈ statements, s.labelName? ≠ some name := by
  rw [Set.eq_empty_iff_forall_notMem]
  constructor
  · intro h s hs hname
    obtain ⟨k, hk⟩ := List.mem_iff_getElem?.1 hs
    exact h k ⟨s, hk, hname⟩
  · rintro h k ⟨s, hk, hname⟩
    exact h s (List.mem_of_getElem? hk) hname

theorem isGreatest_labelPlaces_zero (hs : s.labelName? = some name)
    (hrest : labelPlaces rest name = ∅) : IsGreatest (labelPlaces (s :: rest) name) 0 := by
  refine ⟨⟨s, rfl, hs⟩, ?_⟩
  rintro (_ | j) ⟨t, ht, hname⟩
  · exact Nat.le_refl _
  · have hmem : j ∈ labelPlaces rest name := ⟨t, by simpa using ht, hname⟩
    rw [hrest] at hmem
    cases hmem

namespace LabelIndex

/-- The index after one statement more. -/
def give (labels : LabelIndex) (index : Nat) (s : Statement) : LabelIndex :=
  match s.labelName? with
  | none => labels
  | some name => ⟨labels.targets.set name index⟩

theorem find?_give_self (labels : LabelIndex) (index : Nat) (h : s.labelName? = some name) :
    (labels.give index s).targets.find? name = some index := by
  rw [give, h]
  exact Bindings.find?_set_self ..

theorem find?_give_of_ne (labels : LabelIndex) (index : Nat) (h : s.labelName? ≠ some name) :
    (labels.give index s).targets.find? name = labels.targets.find? name := by
  rw [give]
  cases hs : s.labelName? with
  | none => rfl
  | some other =>
      have hne : name ≠ other := fun hname => h (hname ▸ hs)
      exact Bindings.find?_set_of_ne hne ..

theorem extend_cons (labels : LabelIndex) (index : Nat) (s : Statement) (rest : List Statement) :
    (labels.extend index (s :: rest)).1 = ((labels.give index s).extend (index + 1) rest).1 := by
  rw [extend, give]
  cases s.labelName? with
  | none => rfl
  | some name =>
      dsimp only
      cases labels.targets.find? name <;> rfl

/-- After the statements a label leads to the last place where they give it, and to its earlier place
if they do not give it. -/
theorem find?_extend (labels : LabelIndex) (index : Nat) (statements : List Statement)
    (name : String) :
    (∃ k, IsGreatest (labelPlaces statements name) k ∧
      (labels.extend index statements).1.targets.find? name = some (index + k)) ∨
    (labelPlaces statements name = ∅ ∧
      (labels.extend index statements).1.targets.find? name = labels.targets.find? name) := by
  induction statements generalizing labels index with
  | nil => exact .inr ⟨labelPlaces_eq_empty_iff.2 (List.forall_mem_nil _), rfl⟩
  | cons s rest ih =>
      rw [extend_cons]
      rcases ih (labels.give index s) (index + 1) with ⟨k, hk, hfind⟩ | ⟨hnone, hfind⟩
      · refine .inl ⟨k + 1, isGreatest_labelPlaces_cons hk, ?_⟩
        rw [hfind, Nat.add_assoc, Nat.add_comm 1]
      · rw [hfind]
        by_cases hs : s.labelName? = some name
        · exact .inl ⟨0, isGreatest_labelPlaces_zero hs hnone, find?_give_self labels index hs⟩
        · refine .inr ⟨?_, find?_give_of_ne labels index hs⟩
          rw [labelPlaces_eq_empty_iff] at hnone ⊢
          exact List.forall_mem_cons.2 ⟨hs, hnone⟩

variable {p : Program}

theorem find?_ofProgram_eq_some_iff :
    (ofProgram p).1.targets.find? name = some k ↔ IsGreatest (labelPlaces p.statements name) k := by
  rcases find?_extend {} 0 p.statements name with ⟨j, hj, hfind⟩ | ⟨hnone, hfind⟩
  · rw [ofProgram, hfind, Nat.zero_add, Option.some.injEq]
    exact ⟨fun h => h ▸ hj, fun h => hj.unique h⟩
  · rw [ofProgram, hfind, hnone]
    exact ⟨nofun, fun h => h.1.elim⟩

theorem find?_ofProgram_eq_none_iff :
    (ofProgram p).1.targets.find? name = none ↔ ∀ s ∈ p.statements, s.labelName? ≠ some name := by
  rw [← labelPlaces_eq_empty_iff]
  rcases find?_extend {} 0 p.statements name with ⟨j, hj, hfind⟩ | ⟨hnone, hfind⟩
  · rw [ofProgram, hfind]
    exact ⟨nofun, fun h => (h ▸ hj.1 : j ∈ (∅ : Set Nat)).elim⟩
  · rw [ofProgram, hfind]
    exact ⟨fun _ => hnone, fun _ => rfl⟩

end LabelIndex

/-! ## Steps -/

/-- The label that the next statement leads to. -/
def Program.jump? (host : Host) (p : Program) (m : Machine) : Option String :=
  p.statements[m.counter]?.bind fun s => s.action.destination? host m.environment

theorem Action.Fault.ne_labelNotFound {host : Host} {env : Environment} {action : Action}
    {error : RuntimeError} (h : action.Fault host env error) (label : String) :
    error ≠ .labelNotFound label := by
  rintro rfl
  cases h with
  | expression _ hv => exact Expr.origin_of_value hv rfl

namespace Program

variable {world : World} {host : Host} {console : Console} {p : Program} {m m' : Machine} {label : String}

theorem getElem?_start (p : Program) (console : Console) (k : Nat) :
    (Machine.start p console).1.statements[k]? = p.statements[k]? := by
  simp [Machine.start]

theorem jump?_eq {s : Statement}
    (hs : (Machine.start p console).1.statements[m.counter]? = some s) :
    p.jump? host m = s.action.destination? host m.environment := by
  rw [getElem?_start] at hs
  rw [jump?, hs, Option.bind_some]

theorem counter_of_jump (hj : p.jump? host m = some label)
    (hs : m.step host (Machine.start p console).1 = .running m') :
    IsGreatest (labelPlaces p.statements label) m'.counter := by
  have hspec := Machine.stepSpec_step host (Machine.start p console).1 m
  rw [hs] at hspec
  cases hspec with
  | next hat hd _ =>
      rw [jump?_eq hat, hd] at hj
      cases hj
  | jump hat hd hl =>
      rw [jump?_eq hat, hd, Option.some.injEq] at hj
      rw [← hj]
      exact LabelIndex.find?_ofProgram_eq_some_iff.1 hl

theorem counter_le_of_step (hs : m.step host (Machine.start p console).1 = .running m') :
    m'.counter ≤ p.statements.length := by
  have hspec := Machine.stepSpec_step host (Machine.start p console).1 m
  rw [hs] at hspec
  cases hspec with
  | next hat _ hc =>
      rw [getElem?_start] at hat
      rw [hc]
      exact (List.getElem?_eq_some_iff.1 hat).1
  | jump _ _ hl =>
      obtain ⟨⟨s, hat, -⟩, -⟩ := LabelIndex.find?_ofProgram_eq_some_iff.1 hl
      exact Nat.le_of_lt (List.getElem?_eq_some_iff.1 hat).1

theorem Reaches.counter_le (h : p.Reaches world console m) : m.counter ≤ p.statements.length := by
  cases h with
  | refl => exact Nat.zero_le _
  | tail _ hs => exact counter_le_of_step hs

/-- A statement that leads to a label fails for it if no statement gives it. -/
theorem failed_of_jump (console : Console) (hj : p.jump? host m = some label)
    (hno : ∀ s ∈ p.statements, s.labelName? ≠ some label) :
    ∃ position m', m.step host (Machine.start p console).1 =
      .failed ⟨.labelNotFound label, position⟩ m' := by
  have hfind := LabelIndex.find?_ofProgram_eq_none_iff.2 hno
  have hspec := Machine.stepSpec_step host (Machine.start p console).1 m
  generalize m.step host (Machine.start p console).1 = step at hspec
  cases hspec with
  | finished hat =>
      rw [getElem?_start] at hat
      rw [jump?, hat] at hj
      cases hj
  | next hat hd | fault hat hd =>
      rw [jump?_eq hat, hd] at hj
      cases hj
  | jump hat hd hl =>
      rw [jump?_eq hat, hd, Option.some.injEq] at hj
      rw [hj] at hl
      cases hl.symm.trans hfind
  | @lost s name m' hat hd _ =>
      rw [jump?_eq hat, hd, Option.some.injEq] at hj
      rw [hj]
      exact ⟨s.position, m', rfl⟩

theorem jump_of_failed {position : Position}
    (hs : m.step host (Machine.start p console).1 = .failed ⟨.labelNotFound label, position⟩ m') :
    p.jump? host m = some label ∧ ∀ s ∈ p.statements, s.labelName? ≠ some label := by
  have hspec := Machine.stepSpec_step host (Machine.start p console).1 m
  rw [hs] at hspec
  cases hspec with
  | lost hat hd hl => exact ⟨(jump?_eq hat).trans hd, LabelIndex.find?_ofProgram_eq_none_iff.1 hl⟩
  | fault _ _ hf => exact absurd rfl (hf.ne_labelNotFound label)

theorem fails_labelNotFound_iff {i : Interpreter} :
    (∃ fuel report j position, i.interpret world fuel p = some (report, j) ∧
      report.outcome = .error ⟨.labelNotFound label, position⟩) ↔
    (∃ m, p.Reaches world i.console m ∧ p.jump? (world m.events) m = some label) ∧
      ∀ s ∈ p.statements, s.labelName? ≠ some label := by
  constructor
  · rintro ⟨fuel, report, j, position, hrun, hout⟩
    obtain ⟨m, m', hreach, hs⟩ := Interpreter.fails_iff.1 ⟨fuel, report, j, hrun, hout⟩
    obtain ⟨hj, hno⟩ := jump_of_failed hs
    exact ⟨⟨m, hreach, hj⟩, hno⟩
  · rintro ⟨⟨m, hreach, hj⟩, hno⟩
    obtain ⟨position, m', hs⟩ := failed_of_jump i.console hj hno
    obtain ⟨fuel, report, j, hrun, hout⟩ := Interpreter.fails_iff.2 ⟨m, m', hreach, hs⟩
    exact ⟨fuel, report, j, position, hrun, hout⟩

end Program

/-! ## Labels that are not followed -/

/-- The same action, but perhaps with other labels to go to. -/
inductive Action.SameButTargets : Action → Action → Prop where
  | same (action : Action) : SameButTargets action action
  | jump (name name' : String) : SameButTargets (.jump name) (.jump name')
  | branch (condition : Expr) (whenTrue whenTrue' : String) (whenFalse whenFalse' : Option String) :
    SameButTargets (.branch condition whenTrue whenFalse) (.branch condition whenTrue' whenFalse')

structure Statement.SameButTargets (s s' : Statement) : Prop where
  action : s.action.SameButTargets s'.action
  position : s'.position = s.position

theorem Statement.SameButTargets.labelName? {s s' : Statement} (h : s.SameButTargets s') :
    s'.labelName? = s.labelName? := by
  obtain ⟨haction, -⟩ := h
  rw [labelName?.eq_def, labelName?.eq_def]
  generalize s.action = action, s'.action = action' at haction
  cases haction <;> rfl

/-- The same statements, but perhaps with other labels to go to. -/
def Program.SameButTargets (p q : Program) : Prop :=
  List.Forall₂ Statement.SameButTargets p.statements q.statements

theorem LabelIndex.extend_congr {statements statements' : List Statement}
    (h : List.Forall₂ Statement.SameButTargets statements statements') (labels : LabelIndex)
    (index : Nat) : labels.extend index statements' = labels.extend index statements := by
  induction h generalizing labels index with
  | nil => rfl
  | cons hs _ ih => simp only [extend, hs.labelName?, hs.position, ih]

theorem Machine.execute_congr {host : Host} (labels : LabelIndex) (m : Machine)
    {action action' : Action} (h : action.SameButTargets action')
    (hd : action'.destination? host m.environment = action.destination? host m.environment) :
    m.execute host labels action' = m.execute host labels action := by
  cases h with
  | same => rfl
  | jump name name' =>
      cases hd
      rfl
  | branch condition whenTrue whenTrue' whenFalse whenFalse' =>
      rw [execute_branch, execute_branch]
      rw [Action.destination?, Action.destination?] at hd
      cases hv : condition.value host m.environment with
      | error e => rfl
      | ok v =>
          rw [hv] at hd
          cases v with
          | bool b =>
              cases b <;>
              · cases hd
                rfl
          | _ => rfl

namespace Program

variable {world : World} {host : Host} {console : Console} {p q : Program} {m : Machine}

theorem SameButTargets.getElem? (h : p.SameButTargets q) (k : Nat) :
    (p.statements[k]? = none ∧ q.statements[k]? = none) ∨
      ∃ s s', p.statements[k]? = some s ∧ q.statements[k]? = some s' ∧ s.SameButTargets s' := by
  have hlength := h.length_eq
  by_cases hk : k < p.statements.length
  · have hk' : k < q.statements.length := hlength ▸ hk
    exact .inr ⟨_, _, List.getElem?_eq_getElem hk, List.getElem?_eq_getElem hk', h.get hk hk'⟩
  · exact .inl ⟨List.getElem?_eq_none (by omega), List.getElem?_eq_none (by omega)⟩

theorem SameButTargets.start (h : p.SameButTargets q) (console : Console) :
    Machine.start q console =
      (⟨q.statements.toArray, (Machine.start p console).1.labels⟩, (Machine.start p console).2) := by
  have hlength := h.length_eq
  simp only [Machine.start, LabelIndex.ofProgram, LabelIndex.extend_congr h, hlength]

/-- Where the same labels are followed, the same step is taken. -/
theorem SameButTargets.step_eq (h : p.SameButTargets q) (console : Console)
    (hj : q.jump? host m = p.jump? host m) :
    m.step host (Machine.start q console).1 = m.step host (Machine.start p console).1 := by
  rw [Machine.step, Machine.step, getElem?_start, getElem?_start]
  rcases h.getElem? m.counter with ⟨hp, hq⟩ | ⟨s, s', hp, hq, hs⟩
  · rw [hp, hq]
  · rw [jump?, jump?, hp, hq] at hj
    have hexecute := Machine.execute_congr (Machine.start p console).1.labels
      { m with events := .executing m.counter s.position :: m.events } hs.action hj
    rw [hp, hq, h.start]
    simp only [hs.labelName?, hs.position, hexecute]

/-- Programs that follow the same labels in the run of one of them have the same run. -/
theorem interpret_eq_of_sameButTargets {i : Interpreter} (h : p.SameButTargets q)
    (hj : ∀ m, p.Reaches world i.console m → q.jump? (world m.events) m = p.jump? (world m.events) m)
    (fuel : Nat) : i.interpret world fuel q = i.interpret world fuel p := by
  have hrun := Machine.run_congr (fun m hm => h.step_eq i.console (hj m hm)) fuel
  have hstart : (Machine.start q i.console).2 = (Machine.start p i.console).2 := by rw [h.start]
  rw [Interpreter.interpret_eq, Interpreter.interpret_eq, hstart, hrun]

/-- Runs stay inside the program and jump to the last place of a label. They fail for a label exactly
if they come to a statement that leads to it and no statement gives it. Labels that a run does not
follow can be replaced by any others, known or not, and the run stays the same. All this holds in every
world, whatever changes between two statements. -/
theorem runs_follow_labels (world : World) (p : Program) (i : Interpreter) :
    (∀ m, p.Reaches world i.console m → m.counter ≤ p.statements.length ∧
      ∀ label m', p.jump? (world m.events) m = some label →
        m.step (world m.events) (Machine.start p i.console).1 = .running m' →
        IsGreatest (labelPlaces p.statements label) m'.counter) ∧
    (∀ label,
      (∃ fuel report j position, i.interpret world fuel p = some (report, j) ∧
        report.outcome = .error ⟨.labelNotFound label, position⟩) ↔
      (∃ m, p.Reaches world i.console m ∧ p.jump? (world m.events) m = some label) ∧
        ∀ s ∈ p.statements, s.labelName? ≠ some label) ∧
    ∀ q, p.SameButTargets q →
      (∀ m, p.Reaches world i.console m → q.jump? (world m.events) m = p.jump? (world m.events) m) →
      ∀ fuel, i.interpret world fuel q = i.interpret world fuel p := by
  refine ⟨fun m hm => ⟨hm.counter_le, fun label m' hj hs => counter_of_jump hj hs⟩, ?_, ?_⟩
  · exact fun label => fails_labelNotFound_iff
  · exact fun q hq hj fuel => interpret_eq_of_sameButTargets hq hj fuel

/-- In `if true goto @a else @nowhere` with `@a` twice after it, the jump leads to the second `@a`, and
the label that is nowhere can as well be `@a`. -/
theorem runs_follow_doubled_label :
    let place (line : UInt32) : Position := ⟨"main", line, 1⟩
    let labels : List Statement := [⟨.label "a", place 2⟩, ⟨.label "a", place 3⟩]
    let p : Program := ⟨⟨.branch (.bool true) "a" (some "nowhere"), place 1⟩ :: labels⟩
    let q : Program := ⟨⟨.branch (.bool true) "a" (some "a"), place 1⟩ :: labels⟩
    let i : Interpreter := ⟨⟨.unlimited, none⟩, {}⟩
    let start := Machine.start p i.console
    ∀ world : World, (∃ m', start.2.step (world start.2.events) start.1 = .running m' ∧
        IsGreatest (labelPlaces p.statements "a") m'.counter) ∧
      ∀ fuel, i.interpret world fuel q = i.interpret world fuel p := by
  intro place labels p q i start world
  obtain ⟨hstates, -, hsame⟩ := runs_follow_labels world p i
  refine ⟨⟨_, rfl, (hstates start.2 .refl).2 "a" _ rfl rfl⟩, hsame q ?_ fun m _ => ?_⟩
  · exact .cons ⟨.branch .., rfl⟩ (.cons ⟨.same _, rfl⟩ (.cons ⟨.same _, rfl⟩ .nil))
  · obtain ⟨counter, environment, console, events⟩ := m
    match counter with
    | 0 | 1 | 2 | _ + 3 => rfl

end Program

end GotoScript
