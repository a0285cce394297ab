import GotoScript.Proofs.Running.Simulation

/-!
# Lines and what becomes of them

A line is printed in two parts, its text and a line feed, and the writer may refuse either. This module
follows the lines of a run to the writer and to the lines that are kept.

* `Fate`, `Writer.fate` : what becomes of a line; `Printing` : a line with its fate and its statement;
* `Console.Printed c ps d` : between `c` and `d` exactly these lines were printed, as far as they were;
* `Machine.printing?` : the line of the next statement; `Machine.step_of_printing` : a line that is not
  printed to its end ends the run;
* `Machine.proceed` : some statements of a run with their lines; `Machine.printed_proceed`,
  `Machine.ends_of_run` : where these lines went, and how the run ended;
* `Machine.Alike R`, `Interpreter.exists_interpret_of_alike` : runs on consoles that print alike.
-/

namespace GotoScript

/-- What becomes of a line. -/
inductive Fate where
  /-- All of it is taken. -/
  | printed
  /-- Its text is taken, but not the line feed. -/
  | cut
  /-- Its text is refused. -/
  | refused
deriving DecidableEq

/-- A line that a statement set out to print. -/
structure Printing where
  /-- Where the statement stands. -/
  position : Position
  text : String
  fate : Fate

namespace Printing

/-- What the writer has taken of the line. -/
def taken (p : Printing) : String :=
  match p.fate with
  | .printed => p.text ++ "\n"
  | .cut => p.text
  | .refused => ""

/-- The line, if it was printed to its end. -/
def line? (p : Printing) : Option String :=
  if p.fate = .printed then some p.text else none

end Printing

/-! ## Writers -/

namespace Writer

/-- Offers the text of a line, unless it is empty. -/
def offer (w : Writer) (text : String) : Bool × Writer :=
  if text.isEmpty then (true, w) else w.write text

/-- What becomes of a line: its text is offered first, and then a line feed. -/
def fate (w : Writer) (text : String) : Fate :=
  if (w.offer text).1 then if ((w.offer text).2.write "\n").1 then .printed else .cut else .refused

theorem text_write (w : Writer) (text : String) :
    (w.write text).2.text = w.text ++ if (w.write text).1 then text else "" := by
  unfold write
  split
  · simp [Writer.text]
  · simp [Writer.text]

theorem text_offer (w : Writer) (text : String) :
    (w.offer text).2.text = w.text ++ if (w.offer text).1 then text else "" := by
  unfold offer
  split
  · next h =>
    rw [String.isEmpty_iff] at h
    simp [h]
  · exact text_write w text

end Writer

/-! ## Consoles -/

namespace Console

variable {c d e : Console}

theorem print_eq (c : Console) (text : String) :
    c.print text =
      if (c.writer.offer text).1 then
        if ((c.writer.offer text).2.write "\n").1 then
          (true, ⟨((c.writer.offer text).2.write "\n").2, c.kept.map (text :: ·)⟩)
        else (false, ⟨((c.writer.offer text).2.write "\n").2, c.kept⟩)
      else (false, ⟨(c.writer.offer text).2, c.kept⟩) := by
  rfl

/-- From the one console to the other these lines were printed, each as far as its fate let it. -/
structure Printed (c : Console) (lines : List Printing) (d : Console) : Prop where
  text : d.writer.text = c.writer.text ++ String.join (lines.map Printing.taken)
  keeps : d.kept.isSome = c.kept.isSome
  lines : c.kept.isSome → d.lines = c.lines ++ lines.filterMap Printing.line?

theorem Printed.nil (c : Console) : c.Printed [] c :=
  ⟨by simp, rfl, by simp⟩

theorem Printed.append {ps qs : List Printing} (h : c.Printed ps d) (h' : d.Printed qs e) :
    c.Printed (ps ++ qs) e := by
  refine ⟨?_, h'.keeps.trans h.keeps, fun hk => ?_⟩
  · rw [h'.text, h.text, List.map_append, String.join_append, String.append_assoc]
  · rw [h'.lines (h.keeps.trans hk), h.lines hk, List.filterMap_append, List.append_assoc]

theorem Printed.isPrefix_lines {ps : List Printing} (h : c.Printed ps d) : c.lines <+: d.lines := by
  cases hk : c.kept with
  | none =>
      rw [Console.lines, hk]
      exact List.nil_prefix
  | some kept =>
      rw [h.lines (by rw [hk]; rfl)]
      exact List.prefix_append ..

theorem print_fst (c : Console) (text : String) :
    (c.print text).1 = decide (c.writer.fate text = .printed) := by
  rw [print_eq, Writer.fate]
  split
  · split <;> rfl
  · rfl

/-- A line is printed as far as its fate lets it. -/
theorem printed_print (c : Console) (position : Position) (text : String) :
    c.Printed [⟨position, text, c.writer.fate text⟩] (c.print text).2 := by
  have htext := c.writer.text_offer text
  have hend := (c.writer.offer text).2.text_write "\n"
  rw [print_eq, Writer.fate]
  split
  case isTrue htaken =>
    rw [if_pos htaken] at htext
    split
    case isTrue hended =>
      rw [if_pos hended, htext] at hend
      refine ⟨?_, by simp, fun hk => ?_⟩
      · simp [hend, Printing.taken, String.append_assoc]
      · obtain ⟨kept, hkept⟩ := Option.isSome_iff_exists.1 hk
        simp [lines, hkept, Printing.line?]
    case isFalse hended =>
      rw [if_neg hended, htext] at hend
      exact ⟨by simp [hend, Printing.taken], rfl, by simp [lines, Printing.line?]⟩
  case isFalse htaken =>
    rw [if_neg htaken] at htext
    exact ⟨by simp [htext, Printing.taken], rfl, by simp [lines, Printing.line?]⟩

end Console

/-! ## Steps -/

/-- A statement that prints leads to the one after it. -/
theorem Action.HasEffect.lead_of_line {action : Action} {effect : Effect}
    (h : action.HasEffect effect) {text : String} (htext : effect.line? = some text) :
    effect.lead = .ok none := by
  cases h with
  | prints => rfl
  | _ => cases htext

namespace Machine

variable {world : World} {host : Host} {code : Code} {m m' : Machine} {q : Printing}

/-- The line that the next statement sets out to print, and what becomes of it. -/
def printing? (host : Host) (code : Code) (m : Machine) : Option Printing :=
  code.statements[m.counter]?.bind fun s =>
    (s.action.effect host m.environment).line?.map fun text =>
      ⟨s.position, text, m.console.writer.fate text⟩

theorem printing?_of_statement {s : Statement} (h : code.statements[m.counter]? = some s) :
    m.printing? host code =
      (s.action.effect host m.environment).line?.map fun text =>
        ⟨s.position, text, m.console.writer.fate text⟩ := by
  rw [printing?, h, Option.bind_some]

/-- An effect prints its line. -/
theorem printed_apply (m : Machine) (position : Position) (effect : Effect) :
    m.console.Printed
      (effect.line?.map fun text => Printing.mk position text (m.console.writer.fate text)).toList
      (m.apply effect).console := by
  rw [apply]
  cases effect.line? with
  | none => exact .nil _
  | some text => exact m.console.printed_print position text

theorem console_of_go {position : Position} {flow : Except RuntimeError Flow}
    (h : m.go position flow = .running m' ∨ ∃ failure, m.go position flow = .failed failure m') :
    m'.console = m.console := by
  rcases flow with error | _ | target <;> rcases h with h | ⟨failure, h⟩ <;> cases h <;> rfl

/-- A step prints the line of its statement and no other. -/
theorem printed_step
    (h : m.step host code = .running m' ∨ ∃ failure, m.step host code = .failed failure m') :
    m.console.Printed (m.printing? host code).toList m'.console := by
  cases hat : code.statements[m.counter]? with
  | none =>
      rw [step_of_none hat] at h
      rcases h with h | ⟨failure, h⟩ <;> cases h
  | some s =>
      rw [printing?_of_statement hat]
      by_cases hlabel : s.labelName?.isSome
      · obtain ⟨name, hname⟩ := Option.isSome_iff_exists.1 hlabel
        rw [step_of_label hat hlabel] at h
        rw [Statement.labelName?_eq_some_iff.1 hname]
        rcases h with h | ⟨failure, h⟩ <;> cases h
        exact .nil _
      · rw [step_of_statement hat hlabel] at h
        rw [console_of_go h]
        exact (m.enter s.position).printed_apply s.position _

/-- A line that is not printed to its end is the failure of its statement. -/
theorem step_of_printing (h : m.printing? host code = some q) :
    (q.fate = .printed ∧ ∃ m', m.step host code = .running m') ∨
      (q.fate ≠ .printed ∧ ∃ m', m.step host code = .failed ⟨.output Console.full, q.position⟩ m') := by
  obtain ⟨s, hat, hline⟩ := Option.bind_eq_some_iff.1 h
  obtain ⟨text, htext, rfl⟩ := Option.map_eq_some_iff.1 hline
  have hlabel : ¬ s.labelName?.isSome := by
    intro hlabel
    obtain ⟨name, hname⟩ := Option.isSome_iff_exists.1 hlabel
    rw [Statement.labelName?_eq_some_iff.1 hname] at htext
    cases htext
  have htaken : (m.console.offer (some text)).1 =
      decide (m.console.writer.fate text = .printed) := m.console.print_fst text
  rw [step_of_statement hat hlabel, flowOf, htext, htaken]
  by_cases hfate : m.console.writer.fate text = .printed
  · refine .inl ⟨hfate, ?_⟩
    rw [if_pos (decide_eq_true hfate), (s.action.hasEffect host m.environment).lead_of_line htext]
    exact ⟨_, rfl⟩
  · refine .inr ⟨hfate, ?_⟩
    rw [if_neg (by simpa using hfate)]
    exact ⟨_, rfl⟩

/-- No other statement fails as one that cannot print. -/
theorem printing_of_step {reason : String} {position : Position}
    (h : m.step host code = .failed ⟨.output reason, position⟩ m') :
    ∃ q, m.printing? host code = some q ∧ q.fate ≠ .printed := by
  cases hat : code.statements[m.counter]? with
  | none =>
      rw [step_of_none hat] at h
      cases h
  | some s =>
      by_cases hlabel : s.labelName?.isSome
      · rw [step_of_label hat hlabel] at h
        cases h
      · rw [step_of_statement hat hlabel, flowOf] at h
        rw [printing?_of_statement hat]
        have heffect := s.action.hasEffect host m.environment
        generalize s.action.effect host m.environment = effect at h heffect
        cases heffect with
        | next => cases h
        | @leads name _ _ _ =>
            change go _ s.position (follow code.labels name) = _ at h
            unfold follow LabelIndex.resolve at h
            cases hfind : code.labels.targets.find? name <;>
            · rw [hfind] at h
              cases h
        | @prints text _ _ =>
            refine ⟨_, rfl, fun hfate => ?_⟩
            have htaken : (m.console.offer (some text)).1 :=
              (m.console.print_fst text).trans (decide_eq_true hfate)
            rw [if_pos htaken] at h
            cases h
        | fails hno =>
            cases h
            exact absurd rfl (hno reason)

/-! ## Runs -/

/-- The state after at most `n` statements, and the lines that they set out to print. -/
def proceed (world : World) (code : Code) : Nat → Machine → List Printing × Machine
  | 0, m => ([], m)
  | n + 1, m =>
    match m.step (world m.events) code with
    | .finished => ([], m)
    | .running m' =>
      ((m.printing? (world m.events) code).toList ++ (proceed world code n m').1,
        (proceed world code n m').2)
    | .failed _ m' => ((m.printing? (world m.events) code).toList, m')

theorem printed_proceed (world : World) (code : Code) (n : Nat) (m : Machine) :
    m.console.Printed (proceed world code n m).1 (proceed world code n m).2.console := by
  induction n generalizing m with
  | zero => exact .nil _
  | succ n ih =>
      rw [proceed]
      cases hs : m.step (world m.events) code with
      | finished => exact .nil _
      | running m' => exact (printed_step (.inl hs)).append (ih m')
      | failed failure m' => exact printed_step (.inr ⟨failure, hs⟩)

theorem isPrefix_lines_of_reaches (h : Reaches world code m m') :
    m.console.lines <+: m'.console.lines := by
  induction h with
  | refl => exact List.prefix_rfl
  | tail _ hs ih => exact ih.trans (printed_step (.inl hs)).isPrefix_lines

theorem proceed_of_run {fuel : Nat} {outcome : Except Failed Unit}
    (h : m.run world code fuel = some (outcome, m')) : (proceed world code fuel m).2 = m' := by
  induction fuel generalizing m with
  | zero => cases h
  | succ fuel ih =>
      rw [run] at h
      rw [proceed]
      cases hs : m.step (world m.events) code with
      | running next =>
          rw [hs] at h
          exact ih h
      | finished | failed =>
          rw [hs] at h
          cases h
          rfl

end Machine

/-- How the lines of a run and its outcome go together. -/
inductive Printing.Ends : List Printing → Except Failed Unit → Prop where
  /-- Every line is printed to its end, and the run does not fail for any. -/
  | printed {lines : List Printing} {outcome : Except Failed Unit}
    (hall : ∀ q ∈ lines, q.fate = .printed)
    (hout : ∀ reason position, outcome ≠ .error ⟨.output reason, position⟩) : Ends lines outcome
  /-- One line is not, no other comes after it, and the run fails at its statement. -/
  | stopped {lines : List Printing} {q : Printing} (hall : ∀ q ∈ lines, q.fate = .printed)
    (hq : q.fate ≠ .printed) : Ends (lines ++ [q]) (.error ⟨.output Console.full, q.position⟩)

theorem Printing.Ends.append {lines more : List Printing} {outcome : Except Failed Unit}
    (hall : ∀ q ∈ lines, q.fate = .printed) (h : Printing.Ends more outcome) :
    Printing.Ends (lines ++ more) outcome := by
  cases h with
  | printed hmore hout => exact .printed (List.forall_mem_append.2 ⟨hall, hmore⟩) hout
  | stopped hmore hq =>
      rw [← List.append_assoc]
      exact .stopped (List.forall_mem_append.2 ⟨hall, hmore⟩) hq

/-- A line that is not printed to its end is what the run fails for. -/
theorem Printing.Ends.failed {lines : List Printing} {outcome : Except Failed Unit} {q : Printing}
    (h : Printing.Ends lines outcome) (hq : q ∈ lines) (hfate : q.fate ≠ .printed) :
    ∃ failure : Failed, outcome = .error failure ∧ failure.error.code = .outputFailed ∧
      failure.position = q.position := by
  cases h with
  | printed hall _ => exact absurd (hall q hq) hfate
  | stopped hall _ =>
      rcases List.mem_append.1 hq with hq | hq
      · exact absurd (hall q hq) hfate
      · obtain rfl := List.mem_singleton.1 hq
        exact ⟨_, rfl, rfl, rfl⟩

namespace Machine

variable {world : World} {host : Host} {code : Code} {m m' : Machine} {q : Printing}

theorem printed_of_running (h : m.step host code = .running m') :
    ∀ q ∈ (m.printing? host code).toList, q.fate = .printed := by
  intro q hq
  rcases step_of_printing (Option.mem_toList.1 hq) with ⟨hfate, -⟩ | ⟨-, m', hfail⟩
  · exact hfate
  · rw [h] at hfail
    cases hfail

theorem ends_of_failed {failure : Failed} (h : m.step host code = .failed failure m') :
    Printing.Ends (m.printing? host code).toList (.error failure) := by
  cases hq : m.printing? host code with
  | none =>
      refine .printed (List.forall_mem_nil _) fun reason position hout => ?_
      cases hout
      obtain ⟨q, hsome, -⟩ := printing_of_step h
      rw [hq] at hsome
      cases hsome
  | some q =>
      rcases step_of_printing hq with ⟨-, m', hrun⟩ | ⟨hfate, m', hfail⟩
      · rw [h] at hrun
        cases hrun
      · rw [h] at hfail
        cases hfail
        exact .stopped (List.forall_mem_nil _) hfate

/-- A run prints every line to its end, or it fails at the first that it does not. -/
theorem ends_of_run {fuel : Nat} {outcome : Except Failed Unit}
    (h : m.run world code fuel = some (outcome, m')) :
    Printing.Ends (proceed world code fuel m).1 outcome := by
  induction fuel generalizing m with
  | zero => cases h
  | succ fuel ih =>
      rw [run] at h
      rw [proceed]
      cases hs : m.step (world m.events) code with
      | finished =>
          rw [hs] at h
          cases h
          exact .printed (List.forall_mem_nil _) (by simp)
      | running next =>
          rw [hs] at h
          exact .append (printed_of_running hs) (ih h)
      | failed failure last =>
          rw [hs] at h
          cases h
          exact ends_of_failed hs

end Machine

/-! ## Consoles that print alike -/

/-- Related consoles take the same lines, and stay related. -/
def Console.PrintAlike (R : Console → Console → Prop) : Prop :=
  ∀ c d text, R c d → (c.print text).1 = (d.print text).1 ∧ R (c.print text).2 (d.print text).2

namespace Machine

variable {R : Console → Console → Prop} {m n : Machine}

/-- Machines that differ in nothing but their consoles. -/
structure Alike (R : Console → Console → Prop) (m n : Machine) : Prop where
  counter : n.counter = m.counter
  environment : n.environment = m.environment
  events : n.events = m.events
  console : R m.console n.console

theorem Alike.enter (h : Alike R m n) (position : Position) :
    Alike R (m.enter position) (n.enter position) := by
  refine ⟨h.counter, h.environment, ?_, h.console⟩
  rw [Machine.enter, Machine.enter, h.counter, h.events]

theorem Alike.apply (hR : Console.PrintAlike R) (h : Alike R m n) (effect : Effect) :
    Alike R (m.apply effect) (n.apply effect) := by
  refine ⟨h.counter, rfl, ?_, ?_⟩
  · rw [Machine.apply, Machine.apply, h.events]
  · change R (m.console.offer effect.line?).2 (n.console.offer effect.line?).2
    cases effect.line? with
    | none => exact h.console
    | some text => exact (hR _ _ text h.console).2

theorem Alike.flowOf (hR : Console.PrintAlike R) (h : Alike R m n) (labels : LabelIndex)
    (effect : Effect) : n.flowOf labels effect = m.flowOf labels effect := by
  have htaken : (n.console.offer effect.line?).1 = (m.console.offer effect.line?).1 := by
    cases effect.line? with
    | none => rfl
    | some text => exact (hR _ _ text h.console).1.symm
  rw [Machine.flowOf, Machine.flowOf, htaken]

theorem Alike.go (h : Alike R m n) (position : Position) (flow : Except RuntimeError Flow) :
    Step.Matches (Alike R) (m.go position flow) (n.go position flow) := by
  rcases flow with error | _ | target
  · exact .failed h
  · exact .running ⟨congrArg (· + 1) h.counter, h.environment, h.events, h.console⟩
  · exact .running ⟨rfl, h.environment, h.events, h.console⟩

theorem Alike.step (hR : Console.PrintAlike R) (h : Alike R m n) (host : Host) (code : Code) :
    Step.Matches (Alike R) (m.step host code) (n.step host code) := by
  cases hat : code.statements[m.counter]? with
  | none =>
      rw [step_of_none hat, step_of_none (h.counter ▸ hat)]
      exact .finished
  | some s =>
      by_cases hlabel : s.labelName?.isSome
      · rw [step_of_label hat hlabel, step_of_label (h.counter ▸ hat) hlabel]
        exact h.go s.position (.ok .next)
      · rw [step_of_statement hat hlabel, step_of_statement (h.counter ▸ hat) hlabel,
          h.environment, h.flowOf hR]
        exact ((h.enter s.position).apply hR _).go s.position _

end Machine

/-- On consoles that print alike, programs run alike. -/
theorem Interpreter.exists_interpret_of_alike {R : Console → Console → Prop}
    (hR : Console.PrintAlike R) {i j i' : Interpreter} (h : R i.console j.console) {world : World}
    {fuel : Nat} {p : Program} {report : RunReport}
    (hrun : i.interpret world fuel p = some (report, i')) :
    ∃ fuel' j', j.interpret world fuel' p = some (report, j') ∧ R i'.console j'.console := by
  obtain ⟨m, hm, hevents, rfl⟩ := interpret_eq_some_iff.1 hrun
  have hstart : Machine.Alike R (Machine.start p i.console).2 (Machine.start p j.console).2 :=
    ⟨rfl, rfl, rfl, h⟩
  have hsteps : Machine.Stutters world (Machine.start p i.console).1 (Machine.start p j.console).1
      (fun _ => 0) (Machine.Alike R) := by
    intro m n hmn
    rw [hmn.events]
    exact .inr (hmn.step hR (world m.events) _)
  obtain ⟨fuel', n, hrun', hmn⟩ := hsteps.exists_run hstart hm
  refine ⟨fuel', ⟨n.console, {}⟩, interpret_eq_some_iff.2 ⟨n, hrun', ?_, rfl⟩, hmn.console⟩
  rw [hevents, hmn.events]

end GotoScript
