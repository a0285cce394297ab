import Mathlib.Data.List.Forall2
import GotoScript.Proofs.Running.Printing

/-!
# One program after another

An interpreter runs any number of programs in turn. The console is all that they share.

* `Interpreter.Call` : one run, from the interpreter before it to the one after it; `Session` : runs in
  turn;
* `Interpreter.Session.isolated` : a program runs as it would alone, and only adds lines;
* `Interpreter.Session.prints` : what the writer took and what was kept, line by line, whatever the writer
  refuses.
-/

namespace GotoScript

namespace Interpreter

/-- A run of a program to its end. -/
structure Call where
  /-- What the program finds outside. -/
  world : World
  program : Program
  fuel : Nat
  /-- The interpreter that the program is run on. -/
  before : Interpreter
  report : RunReport
  /-- The same interpreter after the run. -/
  after : Interpreter
  ends : before.interpret world fuel program = some (report, after)

/-- Programs are run one after the other, each on what the one before has left and in a world of its
own. -/
inductive Session : Interpreter → List Call → Interpreter → Prop where
  | nil (i : Interpreter) : Session i [] i
  | cons (c : Call) {calls : List Call} {k : Interpreter} (h : Session c.after calls k) :
    Session c.before (c :: calls) k

end Interpreter

/-! ## Runs by themselves -/

/-- The writer refuses nothing. -/
def Writer.Unfailing (w : Writer) : Prop :=
  ∀ offered bytes text, w.admits offered bytes text

namespace Writer

theorem write_of_unfailing {w : Writer} (h : w.Unfailing) (text : String) :
    (w.write text).1 ∧ (w.write text).2.Unfailing := by
  rw [write, if_pos (h ..)]
  exact ⟨rfl, h⟩

theorem offer_of_unfailing {w : Writer} (h : w.Unfailing) (text : String) :
    (w.offer text).1 ∧ (w.offer text).2.Unfailing := by
  unfold offer
  split
  · exact ⟨rfl, h⟩
  · exact write_of_unfailing h text

end Writer

namespace Console

/-- An unfailing writer takes every line. -/
theorem print_of_unfailing {c : Console} (h : c.writer.Unfailing) (text : String) :
    ∃ w, w.Unfailing ∧ c.print text = (true, ⟨w, c.kept.map (text :: ·)⟩) := by
  obtain ⟨htaken, hw⟩ := Writer.offer_of_unfailing h text
  obtain ⟨hended, hw'⟩ := Writer.write_of_unfailing hw "\n"
  exact ⟨_, hw', by rw [print_eq, if_pos htaken, if_pos hended]⟩

theorem lines_map_cons (w : Writer) (kept : Option (List String)) (text : String) :
    (Console.mk w (kept.map (text :: ·))).lines =
      (Console.mk w kept).lines ++ if kept.isSome then [text] else [] := by
  cases kept with
  | none => rfl
  | some kept => exact List.reverse_cons

/-- The first console has kept what the second has, after the given lines. Both take every line. -/
structure Continues (before : List String) (c d : Console) : Prop where
  writer : c.writer.Unfailing
  writer' : d.writer.Unfailing
  keeps : c.kept.isSome = d.kept.isSome
  lines : c.lines = before ++ d.lines

theorem Continues.printAlike (before : List String) : PrintAlike (Continues before) := by
  intro c d text h
  obtain ⟨w, hw, hc⟩ := print_of_unfailing h.writer text
  obtain ⟨w', hw', hd⟩ := print_of_unfailing h.writer' text
  rw [hc, hd]
  refine ⟨rfl, hw, hw', by simp [h.keeps], ?_⟩
  rw [lines_map_cons, lines_map_cons, h.keeps, ← List.append_assoc]
  exact congrArg (· ++ _) h.lines

/-- Whether lines are kept makes no difference to the writer. -/
theorem printAlike_unkept : PrintAlike fun c d => d = ⟨c.writer, none⟩ := by
  rintro c d text rfl
  rw [print_eq, print_eq]
  dsimp only
  split
  · split <;> exact ⟨rfl, rfl⟩
  · exact ⟨rfl, rfl⟩

end Console

namespace Interpreter

variable {i k : Interpreter} {calls : List Call}

namespace Call

theorem environment_after (c : Call) : c.after.environment = {} := by
  obtain ⟨m, -, -, hafter⟩ := interpret_eq_some_iff.1 c.ends
  rw [hafter]

/-- The lines that the program set out to print. -/
def printings (c : Call) : List Printing :=
  let start := Machine.start c.program c.before.console
  (start.2.proceed c.world start.1 c.fuel).1

theorem printed (c : Call) : c.before.console.Printed c.printings c.after.console := by
  obtain ⟨m, hrun, -, hafter⟩ := interpret_eq_some_iff.1 c.ends
  have hprinted := Machine.printed_proceed c.world (Machine.start c.program c.before.console).1 c.fuel
    (Machine.start c.program c.before.console).2
  rw [Machine.proceed_of_run hrun] at hprinted
  rw [hafter]
  exact hprinted

theorem printings_end (c : Call) : Printing.Ends c.printings c.report.outcome := by
  obtain ⟨m, hrun, -, -⟩ := interpret_eq_some_iff.1 c.ends
  exact Machine.ends_of_run hrun

end Call

/-- A run whose end was seen has a report of it. -/
theorem exists_report {world : World} {fuel : Nat} {p : Program} {outcome : Except Failed Unit}
    (h : (i.interpret world fuel p).map (fun r => (r.1.outcome, r.2)) = some (outcome, k)) :
    ∃ report, i.interpret world fuel p = some (report, k) ∧ report.outcome = outcome := by
  obtain ⟨⟨report, _⟩, hrun, hseen⟩ := Option.map_eq_some_iff.1 h
  obtain ⟨hout, rfl⟩ := Prod.mk.inj hseen
  exact ⟨report, hrun, hout⟩

/-- An interpreter of the same kind on another writer, before its first run. -/
def fresh (i : Interpreter) (w : Writer) : Interpreter :=
  { console := ⟨w, i.console.kept.map fun _ => []⟩ }

/-- What a program does where nothing is refused, it does alone as well. -/
theorem Call.alone (c : Call) (hw : c.before.console.writer.Unfailing) {w : Writer}
    (hw' : w.Unfailing) :
    c.after.console.writer.Unfailing ∧
      ∃ fuel j, (c.before.fresh w).interpret c.world fuel c.program = some (c.report, j) ∧
        c.after.console.lines = c.before.console.lines ++ j.console.lines := by
  have hstart : Console.Continues c.before.console.lines c.before.console
      (c.before.fresh w).console := by
    refine ⟨hw, hw', ?_, ?_⟩
    · change _ = (c.before.console.kept.map _).isSome
      rw [Option.isSome_map]
    · have hnone : (c.before.fresh w).console.lines = [] := by
        unfold fresh Console.lines
        cases c.before.console.kept <;> rfl
      rw [hnone, List.append_nil]
  obtain ⟨fuel, j, hrun, hafter⟩ :=
    exists_interpret_of_alike (Console.Continues.printAlike _) hstart c.ends
  exact ⟨hafter.writer, fuel, j, hrun, hafter.lines⟩

theorem Session.unfailing (h : Session i calls k) (hw : i.console.writer.Unfailing) :
    ∀ c ∈ calls, c.before.console.writer.Unfailing := by
  induction h with
  | nil => exact List.forall_mem_nil _
  | cons c h ih => exact List.forall_mem_cons.2 ⟨hw, ih (c.alone hw hw).1⟩

theorem Session.keeps (h : Session i calls k) :
    ∀ c ∈ calls, c.before.console.kept.isSome = i.console.kept.isSome := by
  induction h with
  | nil => exact List.forall_mem_nil _
  | cons c h ih =>
      refine List.forall_mem_cons.2 ⟨rfl, fun d hd => ?_⟩
      rw [ih d hd, c.printed.keeps]

theorem fresh_eq {j : Interpreter} (h : i.console.kept.isSome = j.console.kept.isSome) (w : Writer) :
    i.fresh w = j.fresh w := by
  unfold fresh
  cases hi : i.console.kept <;> cases hj : j.console.kept <;> simp_all

/-- Where the writer refuses nothing, every program of a session runs as it would in the same world on an
interpreter of its own, whatever ran before: it ends in the same way, with the same events, and adds the same
lines to those that were kept. No variable outlives its run, and no line that was kept is lost. -/
theorem Session.isolated (h : Session i calls k) (hw : i.console.writer.Unfailing) :
    ∀ c ∈ calls, c.after.environment = {} ∧
      (∀ w : Writer, w.Unfailing →
        ∃ fuel j, (i.fresh w).interpret c.world fuel c.program = some (c.report, j) ∧
          c.after.console.lines = c.before.console.lines ++ j.console.lines) ∧
      ∀ m m', Machine.Reaches c.world (Machine.start c.program c.before.console).1 m m' →
        m.console.lines <+: m'.console.lines := by
  intro c hc
  refine ⟨c.environment_after, fun w hw' => ?_, fun m m' => Machine.isPrefix_lines_of_reaches⟩
  obtain ⟨-, hrun⟩ := c.alone (h.unfailing hw c hc) hw'
  rwa [fresh_eq (h.keeps c hc)] at hrun

/-- The first program sets `x` and prints a line, and the second fails: `x` is unknown to it, as it is on an
interpreter of its own. The third adds its line to that of the first. -/
theorem Session.isolated_after_failure :
    let place (line : UInt32) : Position := ⟨"main", line, 1⟩
    let first : Program := ⟨[⟨.assign (.var "x") (.int 1), place 1⟩, ⟨.print (.text "a"), place 2⟩]⟩
    let second : Program := ⟨[⟨.print (.var "x"), place 1⟩]⟩
    let third : Program := ⟨[⟨.print (.text "b"), place 1⟩]⟩
    let i : Interpreter := ⟨.keeping .unlimited, {}⟩
    ∀ world world' world'' : World, ∃ (calls : List Call) (k : Interpreter), Session i calls k ∧
      calls.map (·.world) = [world, world', world''] ∧
      calls.map (·.program) = [first, second, third] ∧
      calls.map (·.report.outcome) = [.ok (), .error ⟨.undefinedVariable "x", place 1⟩, .ok ()] ∧
      k.console.lines = ["a", "b"] ∧
      ∀ c ∈ calls, c.after.environment = {} ∧
        ∃ fuel j, (i.fresh .unlimited).interpret c.world fuel c.program = some (c.report, j) ∧
          c.after.console.lines = c.before.console.lines ++ j.console.lines := by
  intro place first second third i world world' world''
  let held (offered bytes : Nat) (taken lines : List String) : Interpreter :=
    ⟨⟨⟨Writer.unlimited.admits, offered, bytes, taken⟩, some lines⟩, {}⟩
  have hfirst : (i.interpret world 3 first).map (fun r => (r.1.outcome, r.2)) =
      some (.ok (), held 2 2 ["\n", "a"] ["a"]) := rfl
  have hsecond :
      ((held 2 2 ["\n", "a"] ["a"]).interpret world' 1 second).map (fun r => (r.1.outcome, r.2)) =
        some (.error ⟨.undefinedVariable "x", place 1⟩, held 2 2 ["\n", "a"] ["a"]) := rfl
  have hthird :
      ((held 2 2 ["\n", "a"] ["a"]).interpret world'' 2 third).map (fun r => (r.1.outcome, r.2)) =
        some (.ok (), held 4 4 ["\n", "b", "\n", "a"] ["b", "a"]) := rfl
  obtain ⟨report, hc, hout⟩ := exists_report hfirst
  obtain ⟨report', hc', hout'⟩ := exists_report hsecond
  obtain ⟨report'', hc'', hout''⟩ := exists_report hthird
  let c : Call := ⟨world, first, 3, i, report, _, hc⟩
  let c' : Call := ⟨world', second, 1, _, report', _, hc'⟩
  let c'' : Call := ⟨world'', third, 2, _, report'', _, hc''⟩
  have hsession : Session i [c, c', c''] c''.after := .cons c (.cons c' (.cons c'' (.nil _)))
  have hunfailing : Writer.unlimited.Unfailing := fun _ _ _ => rfl
  refine ⟨_, _, hsession, rfl, rfl, ?_, rfl, fun d hd => ?_⟩
  · simp only [List.map_cons, List.map_nil, c, c', c'', hout, hout', hout'']
  · obtain ⟨hempty, halone, -⟩ := hsession.isolated hunfailing d hd
    exact ⟨hempty, halone .unlimited hunfailing⟩

/-! ## Without keeping lines -/

/-- The same interpreter, keeping no lines. -/
def silent (i : Interpreter) : Interpreter :=
  { i with console := ⟨i.console.writer, none⟩ }

/-- Keeping lines does not change a run. -/
theorem Call.silenced (c : Call) :
    ∃ d : Call, d.before = c.before.silent ∧ d.after = c.after.silent ∧
      d.world = c.world ∧ d.program = c.program ∧ d.report = c.report := by
  obtain ⟨fuel, j, hrun, hafter⟩ := exists_interpret_of_alike Console.printAlike_unkept
    (show c.before.silent.console = _ from rfl) c.ends
  refine ⟨⟨c.world, c.program, fuel, c.before.silent, c.report, j, hrun⟩, rfl, ?_, rfl, rfl, rfl⟩
  have henv : j.environment = {} :=
    environment_after ⟨c.world, c.program, fuel, c.before.silent, c.report, j, hrun⟩
  have hsilent : c.after.silent = ⟨⟨c.after.console.writer, none⟩, {}⟩ := by
    rw [silent, c.environment_after]
  rw [hsilent, ← hafter, ← henv]

theorem Session.silenced (h : Session i calls k) :
    ∃ others : List Call, Session i.silent others k.silent ∧
      List.Forall₂ (fun c d => d.world = c.world ∧ d.program = c.program ∧ d.report = c.report ∧
        d.after.console.writer = c.after.console.writer) calls others := by
  induction h with
  | nil i => exact ⟨[], .nil _, .nil⟩
  | cons c h ih =>
      obtain ⟨others, hothers, hsame⟩ := ih
      obtain ⟨d, hbefore, hafter, hworld, hprogram, hreport⟩ := c.silenced
      refine ⟨d :: others, ?_, .cons ⟨hworld, hprogram, hreport, by rw [hafter]; rfl⟩ hsame⟩
      rw [← hbefore]
      rw [← hafter] at hothers
      exact .cons d hothers

/-! ## Every line of a session -/

theorem Session.printed (h : Session i calls k) :
    i.console.Printed (calls.flatMap Call.printings) k.console := by
  induction h with
  | nil i => exact .nil _
  | cons c h ih => exact c.printed.append ih

/-- The lines that the programs of a session set out to print account for all that the writer took and for
all that was kept, at the end and also while one more program is running. A line that is not printed to its
end is the last of its program, which fails there. An interpreter that keeps no lines makes no difference to
how programs end and to what the writer takes. -/
theorem Session.prints (h : Session i calls k) :
    i.console.Printed (calls.flatMap Call.printings) k.console ∧
    (∀ c ∈ calls, Printing.Ends c.printings c.report.outcome ∧
      ∀ q ∈ c.printings, q.fate ≠ .printed →
        ∃ failure : Failed, c.report.outcome = .error failure ∧
          failure.error.code = .outputFailed ∧ failure.position = q.position) ∧
    (∀ world p n,
      let start := Machine.start p k.console
      let state := start.2.proceed world start.1 n
      i.console.Printed (calls.flatMap Call.printings ++ state.1) state.2.console) ∧
    ∃ others : List Call, Session i.silent others k.silent ∧
      List.Forall₂ (fun c d => d.world = c.world ∧ d.program = c.program ∧ d.report = c.report ∧
        d.after.console.writer = c.after.console.writer) calls others := by
  refine ⟨h.printed, fun c _ => ⟨c.printings_end, fun q => c.printings_end.failed⟩,
    fun world p n => ?_, h.silenced⟩
  exact h.printed.append (Machine.printed_proceed world _ n (Machine.start p k.console).2)

/-- A writer with room for four bytes takes the line of the first program and the text of the second
program's first line. The second program ends there, and the third cannot print either. -/
theorem Session.prints_until_full :
    let place (line : UInt32) : Position := ⟨"main", line, 1⟩
    let first : Program := ⟨[⟨.print (.text "ab"), place 1⟩]⟩
    let second : Program := ⟨[⟨.print (.text "c"), place 1⟩, ⟨.print (.text "d"), place 2⟩]⟩
    let i : Interpreter := ⟨.keeping (.limited 4), {}⟩
    ∀ world : World, ∃ (calls : List Call) (k : Interpreter), Session i calls k ∧
      (∀ c ∈ calls, c.world = world) ∧ calls.map (·.program) = [first, second, first] ∧
      calls.map (·.report.outcome) =
        [.ok (), .error ⟨.output Console.full, place 1⟩, .error ⟨.output Console.full, place 1⟩] ∧
      calls.flatMap Call.printings =
        [⟨place 1, "ab", .printed⟩, ⟨place 1, "c", .cut⟩, ⟨place 1, "ab", .refused⟩] ∧
      k.console.writer.text = "ab\nc" ∧ k.console.lines = ["ab"] ∧
      ∃ others : List Call, Session i.silent others k.silent ∧
        List.Forall₂ (fun c d => d.world = c.world ∧ d.program = c.program ∧ d.report = c.report ∧
          d.after.console.writer = c.after.console.writer) calls others := by
  intro place first second i world
  let held (offered bytes : Nat) (taken : List String) : Interpreter :=
    ⟨⟨⟨(Writer.limited 4).admits, offered, bytes, taken⟩, some ["ab"]⟩, {}⟩
  have hfirst : (i.interpret world 2 first).map (fun r => (r.1.outcome, r.2)) =
      some (.ok (), held 2 3 ["\n", "ab"]) := rfl
  have hsecond : ((held 2 3 ["\n", "ab"]).interpret world 1 second).map (fun r => (r.1.outcome, r.2)) =
      some (.error ⟨.output Console.full, place 1⟩, held 4 4 ["c", "\n", "ab"]) := rfl
  have hthird :
      ((held 4 4 ["c", "\n", "ab"]).interpret world 1 first).map (fun r => (r.1.outcome, r.2)) =
        some (.error ⟨.output Console.full, place 1⟩, held 5 4 ["c", "\n", "ab"]) := rfl
  obtain ⟨report, hc, hout⟩ := exists_report hfirst
  obtain ⟨report', hc', hout'⟩ := exists_report hsecond
  obtain ⟨report'', hc'', hout''⟩ := exists_report hthird
  let c : Call := ⟨world, first, 2, i, report, _, hc⟩
  let c' : Call := ⟨world, second, 1, _, report', _, hc'⟩
  let c'' : Call := ⟨world, first, 1, _, report'', _, hc''⟩
  have hsession : Session i [c, c', c''] c''.after := .cons c (.cons c' (.cons c'' (.nil _)))
  have hprintings : [c, c', c''].flatMap Call.printings =
      [⟨place 1, "ab", .printed⟩, ⟨place 1, "c", .cut⟩, ⟨place 1, "ab", .refused⟩] := rfl
  obtain ⟨hprinted, -, -, hsilent⟩ := hsession.prints
  rw [hprintings] at hprinted
  refine ⟨_, _, hsession, by simp [c, c', c''], rfl, ?_, hprintings, hprinted.text.trans rfl,
    (hprinted.lines rfl).trans rfl, hsilent⟩
  simp only [List.map_cons, List.map_nil, c, c', c'', hout, hout', hout'']

end Interpreter

end GotoScript
