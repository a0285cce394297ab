import GotoScript.Proofs.Running.Labels
import GotoScript.Proofs.Running.Simulation

/-!
# Labels that nothing needs

A label is dead where it is given again later on, or where no statement leads to it. Taking it out moves
every later statement up by one place, and nothing else can be told from a run.

* `Program.without`, `Program.DeadLabel` : a program less one statement, and when that is a dead label;
* `placeWithout k` : where statements go; `LabelIndex.find?_without` : labels go with them;
* `Machine.Follows k`, `Program.DeadLabel.stutters` : both machines take the same steps, but for the one
  past the dead label;
* `World.ofCalls` : a world that cannot tell where in the program a statement stands;
* `Interpreter.Ends`, `Program.ends_without_iff` : runs in such a world end alike, or not at all.
-/

namespace GotoScript

/-- What native functions do: being called, sending a request, pausing. -/
def Event.isNative : Event → Bool
  | .called .. | .requested .. | .paused _ => true
  | _ => false

/-- The same world, told of nothing but what native functions do. -/
def World.ofCalls (world : World) : World :=
  fun events => world (events.filter Event.isNative)

/-- How a run ends. -/
structure Ending where
  outcome : Except Failed Unit
  /-- What native functions did in the run, in order. -/
  calls : List Event
  /-- What is left after the run, with all that was printed. -/
  interpreter : Interpreter

/-- Running the program ends in this way. -/
def Interpreter.Ends (world : World) (i : Interpreter) (p : Program) (ending : Ending) : Prop :=
  ∃ fuel report, i.interpret world fuel p = some (report, ending.interpreter) ∧
    report.outcome = ending.outcome ∧ report.events.filter Event.isNative = ending.calls

namespace Program

/-- The program less the statement at `k`. -/
def without (p : Program) (k : Nat) : Program :=
  ⟨p.statements.eraseIdx k⟩

/-- The statement at `k` is a label that is given again later, or that no statement leads to. -/
structure DeadLabel (p : Program) (k : Nat) (name : String) : Prop where
  label : ∃ s, p.statements[k]? = some s ∧ s.action = .label name
  dead : (∃ j s, k < j ∧ p.statements[j]? = some s ∧ s.action = .label name) ∨
    ∀ s ∈ p.statements, name ∉ s.action.targets

end Program

/-! ## Places -/

/-- Where the statement at `c` goes when the one at `k` is taken out. -/
def placeWithout (k c : Nat) : Nat :=
  if c ≤ k then c else c - 1

theorem placeWithout_succ {k c : Nat} (h : c ≠ k) : placeWithout k (c + 1) = placeWithout k c + 1 := by
  unfold placeWithout
  split <;> split <;> omega

theorem placeWithout_succ_self (k : Nat) : placeWithout k (k + 1) = placeWithout k k := by
  simp [placeWithout]

variable {statements : List Statement} {p : Program} {k t : Nat} {name : String}

theorem getElem?_placeWithout {c : Nat} (h : c ≠ k) :
    (statements.eraseIdx k)[placeWithout k c]? = statements[c]? := by
  rw [List.getElem?_eraseIdx, placeWithout]
  split
  · rw [if_pos (by omega)]
  · rw [if_neg (by omega), Nat.sub_add_cancel (by omega)]

theorem isGreatest_placeWithout (hk : t ≠ k) (h : IsGreatest (labelPlaces statements name) t) :
    IsGreatest (labelPlaces (statements.eraseIdx k) name) (placeWithout k t) := by
  obtain ⟨⟨s, hat, hname⟩, hmax⟩ := h
  refine ⟨⟨s, (getElem?_placeWithout hk).trans hat, hname⟩, ?_⟩
  rintro j ⟨s, hat, hname⟩
  rw [List.getElem?_eraseIdx] at hat
  unfold placeWithout
  split at hat
  · have hle : j ≤ t := hmax ⟨s, hat, hname⟩
    split <;> omega
  · have hle : j + 1 ≤ t := hmax ⟨s, hat, hname⟩
    split <;> omega

/-- Labels lead where they led, unless that was the statement taken out. -/
theorem LabelIndex.find?_without (h : ∀ t, IsGreatest (labelPlaces p.statements name) t → t ≠ k) :
    (ofProgram (p.without k)).1.targets.find? name =
      ((ofProgram p).1.targets.find? name).map (placeWithout k) := by
  cases hfind : (ofProgram p).1.targets.find? name with
  | none =>
      rw [find?_ofProgram_eq_none_iff] at hfind
      exact find?_ofProgram_eq_none_iff.2 fun s hs => hfind s (List.mem_of_mem_eraseIdx hs)
  | some t =>
      rw [find?_ofProgram_eq_some_iff] at hfind
      exact find?_ofProgram_eq_some_iff.2 (isGreatest_placeWithout (h t hfind) hfind)

/-- No label that is followed leads to a dead one. -/
theorem Program.DeadLabel.ne_of_isGreatest (h : p.DeadLabel k name) {s : Statement}
    (hs : s ∈ p.statements) {target : String} (htarget : target ∈ s.action.targets)
    (ht : IsGreatest (labelPlaces p.statements target) t) : t ≠ k := by
  rintro rfl
  obtain ⟨l, hl, hname⟩ := h.label
  obtain ⟨⟨l', hl', hname'⟩, hmax⟩ := ht
  rw [Statement.labelName?_eq_some_iff] at hname'
  cases hl.symm.trans hl'
  cases hname.symm.trans hname'
  rcases h.dead with ⟨j, l, hlt, hl, hname⟩ | hunused
  · have hle : j ≤ t := hmax ⟨l, hl, Statement.labelName?_eq_some_iff.2 hname⟩
    omega
  · exact hunused s hs htarget

/-! ## Two machines -/

namespace Machine

/-- The second machine is where the first is, in the program less the statement at `k`. -/
structure Follows (k : Nat) (m n : Machine) : Prop where
  counter : n.counter = placeWithout k m.counter
  environment : n.environment = m.environment
  console : n.console = m.console
  calls : n.events.filter Event.isNative = m.events.filter Event.isNative

/-- Goes to the same statement in the program less the statement at `k`. -/
def Flow.without (k : Nat) : Flow → Flow
  | .next => .next
  | .goto target => .goto (placeWithout k target)

variable {m n : Machine}

theorem Follows.enter (h : Follows k m n) (position : Position) :
    Follows k (m.enter position) (n.enter position) :=
  ⟨h.counter, h.environment, h.console, h.calls⟩

theorem Follows.apply (h : Follows k m n) (effect : Effect) :
    Follows k (m.apply effect) (n.apply effect) := by
  refine ⟨h.counter, rfl, ?_, ?_⟩
  · change (n.console.offer _).2 = (m.console.offer _).2
    rw [h.console]
  · change (effect.events ++ n.events).filter _ = (effect.events ++ m.events).filter _
    rw [List.filter_append, List.filter_append, h.calls]

theorem Follows.go (h : Follows k m n) (hk : m.counter ≠ k) (position : Position)
    (flow : Except RuntimeError Flow) :
    Step.Matches (Follows k) (m.go position flow) (n.go position (flow.map (Flow.without k))) := by
  cases flow with
  | error e => exact .failed h
  | ok flow =>
      cases flow with
      | next =>
          refine .running ⟨?_, h.environment, h.console, h.calls⟩
          change n.counter + 1 = placeWithout k (m.counter + 1)
          rw [h.counter, placeWithout_succ hk]
      | goto target => exact .running ⟨rfl, h.environment, h.console, h.calls⟩

end Machine

theorem LabelIndex.follow_without (h : ∀ t, IsGreatest (labelPlaces p.statements name) t → t ≠ k) :
    Machine.follow (ofProgram (p.without k)).1 name =
      (Machine.follow (ofProgram p).1 name).map (Machine.Flow.without k) := by
  unfold Machine.follow resolve
  rw [find?_without h]
  cases (ofProgram p).1.targets.find? name <;> rfl

namespace Program

variable {world : World} {console : Console}

/-- A statement leads to the same place in both programs. -/
theorem DeadLabel.flow (h : p.DeadLabel k name) {s : Statement} (hs : s ∈ p.statements)
    {effect : Effect} (heffect : s.action.HasEffect effect) :
    (Machine.start (p.without k) console).1.labels.flow effect.lead =
      ((Machine.start p console).1.labels.flow effect.lead).map (Machine.Flow.without k) := by
  cases heffect with
  | next | prints | fails => rfl
  | leads htarget => exact LabelIndex.follow_without fun t => h.ne_of_isGreatest hs htarget

theorem DeadLabel.stutters (h : p.DeadLabel k name) :
    Machine.Stutters world.ofCalls (Machine.start p console).1 (Machine.start (p.without k) console).1
      (fun m => if m.counter = k then 1 else 0) (Machine.Follows k) := by
  intro m n hmn
  by_cases hk : m.counter = k
  · -- only the first machine passes the label
    left
    obtain ⟨l, hl, hname⟩ := h.label
    have hat : (Machine.start p console).1.statements[m.counter]? = some l := by
      rw [getElem?_start, hk, hl]
    have hlabel : l.labelName?.isSome := by rw [Statement.labelName?_eq_some_iff.2 hname]; rfl
    refine ⟨_, Machine.step_of_label hat hlabel, ⟨?_, hmn.environment, hmn.console, hmn.calls⟩, ?_⟩
    · change n.counter = placeWithout k (m.counter + 1)
      rw [hmn.counter, hk, placeWithout_succ_self]
    · simp [hk]
  · right
    have hsame : (Machine.start (p.without k) console).1.statements[n.counter]? =
        (Machine.start p console).1.statements[m.counter]? := by
      rw [getElem?_start, getElem?_start, hmn.counter]
      exact getElem?_placeWithout hk
    cases hat : (Machine.start p console).1.statements[m.counter]? with
    | none =>
        rw [Machine.step_of_none hat, Machine.step_of_none (hsame.trans hat)]
        exact .finished
    | some s =>
        by_cases hlabel : s.labelName?.isSome
        · rw [Machine.step_of_label hat hlabel, Machine.step_of_label (hsame.trans hat) hlabel]
          exact hmn.go hk s.position (.ok .next)
        · have hhost : world.ofCalls n.events = world.ofCalls m.events := congrArg world hmn.calls
          rw [Machine.step_of_statement hat hlabel,
            Machine.step_of_statement (hsame.trans hat) hlabel, hmn.environment, hhost]
          generalize world.ofCalls m.events = host
          have hs : s ∈ p.statements := List.mem_of_getElem? (by rwa [getElem?_start] at hat)
          have hflow : n.flowOf (Machine.start (p.without k) console).1.labels
              (s.action.effect host m.environment) =
              (m.flowOf (Machine.start p console).1.labels
                (s.action.effect host m.environment)).map (Machine.Flow.without k) := by
            unfold Machine.flowOf
            rw [hmn.console, h.flow hs (s.action.hasEffect host m.environment)]
            split <;> rfl
          rw [hflow]
          exact ((hmn.enter s.position).apply _).go hk s.position _

end Program

/-! ## Whole runs -/

/-- Making the index of labels calls no native function. -/
theorem LabelIndex.not_isNative_of_extend (labels : LabelIndex) (index : Nat)
    (statements : List Statement) :
    ∀ event ∈ (labels.extend index statements).2, ¬ event.isNative := by
  induction statements generalizing labels index with
  | nil => exact List.forall_mem_nil _
  | cons s rest ih =>
      rw [extend]
      cases s.labelName? with
      | none => exact ih _ _
      | some name =>
          dsimp only
          cases labels.targets.find? name with
          | none => exact ih _ _
          | some previous => exact List.forall_mem_cons.2 ⟨by simp [Event.isNative], ih _ _⟩

theorem Machine.calls_start (p : Program) (console : Console) :
    (start p console).2.events.filter Event.isNative = [] := by
  rw [List.filter_eq_nil_iff]
  refine List.forall_mem_cons.2 ⟨by simp [Event.isNative], fun event hevent => ?_⟩
  exact LabelIndex.not_isNative_of_extend {} 0 p.statements event (List.mem_reverse.1 hevent)

theorem Machine.follows_start (p : Program) (k : Nat) (console : Console) :
    Follows k (start p console).2 (start (p.without k) console).2 :=
  ⟨rfl, rfl, rfl, by rw [calls_start, calls_start]⟩

theorem Interpreter.ends_iff {world : World} {i : Interpreter} {ending : Ending} :
    i.Ends world p ending ↔
      ∃ fuel m, (Machine.start p i.console).2.run world (Machine.start p i.console).1 fuel =
          some (ending.outcome, m) ∧ m.events.reverse.filter Event.isNative = ending.calls ∧
        ending.interpreter = ⟨m.console, {}⟩ := by
  constructor
  · rintro ⟨fuel, report, hrun, hout, hcalls⟩
    obtain ⟨m, hrun, hevents, hafter⟩ := interpret_eq_some_iff.1 hrun
    exact ⟨fuel, m, hout ▸ hrun, hevents ▸ hcalls, hafter⟩
  · rintro ⟨fuel, m, hrun, hcalls, hafter⟩
    refine ⟨fuel, ⟨ending.outcome, m.events.reverse⟩, ?_, rfl, hcalls⟩
    exact interpret_eq_some_iff.2 ⟨m, hrun, rfl, hafter⟩

/-- Taking out a dead label changes no run: in the same world the programs end in the same ways, and if one
does not end then neither does the other. The clock and the services may change with every call. -/
theorem Program.ends_without_iff (world : World) (i : Interpreter) (p : Program) (k : Nat)
    (name : String) (h : p.DeadLabel k name) (ending : Ending) :
    i.Ends world.ofCalls (p.without k) ending ↔ i.Ends world.ofCalls p ending := by
  have hstart := Machine.follows_start p k i.console
  rw [Interpreter.ends_iff, Interpreter.ends_iff]
  constructor
  · rintro ⟨fuel, n, hrun, hcalls, hafter⟩
    obtain ⟨fuel', m, hrun', hmn⟩ := h.stutters.exists_run_of_stuttered hstart hrun
    refine ⟨fuel', m, hrun', ?_, by rw [hafter, hmn.console]⟩
    rw [← hcalls, List.filter_reverse, List.filter_reverse, hmn.calls]
  · rintro ⟨fuel, m, hrun, hcalls, hafter⟩
    obtain ⟨fuel', n, hrun', hmn⟩ := h.stutters.exists_run hstart hrun
    refine ⟨fuel', n, hrun', ?_, by rw [hafter, hmn.console]⟩
    rw [← hcalls, List.filter_reverse, List.filter_reverse, hmn.calls]

/-- In `goto @a` with `@a` twice after it, the first `@a` can go. Both programs jump over the first line
that prints, ask for the time and print `2`. -/
theorem Program.ends_without_doubled_label :
    let place (line : UInt32) : Position := ⟨"main", line, 1⟩
    let p : Program :=
      ⟨[⟨.jump "a", place 1⟩, ⟨.label "a", place 2⟩, ⟨.print (.text "1"), place 3⟩,
        ⟨.label "a", place 4⟩, ⟨.evaluate (.call (.system "currentTime") []), place 5⟩,
        ⟨.print (.text "2"), place 6⟩]⟩
    let i : Interpreter := ⟨.keeping .unlimited, {}⟩
    p.DeadLabel 1 "a" ∧ ∀ world : World, ∃ j, j.console.writer.text = "2\n" ∧ j.console.lines = ["2"] ∧
      i.Ends world.ofCalls p ⟨.ok (), [.called "currentTime" 0], j⟩ := by
  intro place p i
  have hdead : p.DeadLabel 1 "a" :=
    ⟨⟨_, rfl, rfl⟩, .inl ⟨3, _, by decide, rfl, rfl⟩⟩
  refine ⟨hdead, fun world => ?_⟩
  have hseen : (i.interpret world.ofCalls 6 (p.without 1)).map (fun r =>
      (r.1.outcome, r.1.events.filter Event.isNative, r.2.console.writer.text, r.2.console.lines)) =
        some (.ok (), [.called "currentTime" 0], "2\n", ["2"]) := rfl
  obtain ⟨⟨report, j⟩, hrun, hreport⟩ := Option.map_eq_some_iff.1 hseen
  simp only [Prod.mk.injEq] at hreport
  obtain ⟨hout, hcalls, htext, hlines⟩ := hreport
  have hends : i.Ends world.ofCalls (p.without 1) ⟨.ok (), [.called "currentTime" 0], j⟩ :=
    ⟨6, report, hrun, hout, hcalls⟩
  exact ⟨j, htext, hlines, (ends_without_iff world i p 1 "a" hdead _).1 hends⟩

end GotoScript
