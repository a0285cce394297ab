import GotoScript.Proofs.Running.Chains
import GotoScript.Proofs.Running.Runs

/-!
# Runs of parsed programs

The parser excludes some causes of failure for good, whatever services a program calls and wherever its
output goes.

* `RuntimeError.Excluded` : an assignment to anything but a variable, an operator that is not known, a
  chain without operands;
* `Program.Shaped.not_excluded` : no step of a program of parsed shape fails for such a cause;
* `Parser.sound_of_program_eq_ok` : the shape of all that is parsed, and what follows for its runs.
-/

namespace GotoScript

/-- The causes of failure that parsing excludes. -/
def RuntimeError.Excluded (error : RuntimeError) : Prop :=
  error.origin = .form ∨ error = .unsupportedAssignmentTarget

theorem Action.Shaped.not_excluded {host : Host} {env : Environment} {action : Action}
    {error : RuntimeError} (h : action.Shaped) (hf : action.Fault host env error) :
    ¬ error.Excluded := by
  cases hf with
  | expression he hv =>
      have horigin := Expr.origin_of_shaped (h.1 _ he) hv
      rintro (hform | rfl)
      · rw [horigin] at hform
        cases hform
      · cases horigin
  | condition | output => rintro (hform | htarget) <;> contradiction
  | @target target value hno =>
      obtain ⟨name, hname⟩ := h.2 target value rfl
      exact absurd hname (hno name)

/-- No state of a run of a program of parsed shape fails for an excluded cause. -/
theorem Program.Shaped.not_excluded {p : Program} (h : p.Shaped) {host : Host} {console : Console}
    {m m' : Machine} {failure : Failed}
    (hs : m.step host (Machine.start p console).1 = .failed failure m') :
    ¬ failure.error.Excluded := by
  have hspec := Machine.stepSpec_step host (Machine.start p console).1 m
  rw [hs] at hspec
  cases hspec with
  | lost => rintro (hform | htarget) <;> contradiction
  | @fault s _ _ hat _ hf =>
      have hmem : s ∈ p.statements := List.mem_of_getElem? (by simpa [Machine.start] using hat)
      exact (h s hmem).not_excluded hf

/-- What is parsed has chains of one tier with an operator between any two operands, assigns only to
variables and has no negative integer. Its chains are evaluated without losing an operand, and no run of
it fails for a cause that its form excludes. -/
theorem Parser.sound_of_program_eq_ok {file : String} {tokens : List Token} {p : Program}
    (h : Parser.program file tokens = .ok p) :
    (∀ operands operators, Expr.chain operands operators ∈ p.parts →
      operators ≠ [] ∧ operands.length = operators.length + 1 ∧
      (∃ tier ∈ Parser.tiers, ∀ t ∈ operators, t.text ∈ tier) ∧
      (∀ word, word = "and" ∨ word = "or" → (∃ t ∈ operators, t.text = word) →
        ∀ t ∈ operators, t.text = word) ∧
      ∃ first pairs, operands = first :: pairs.map Prod.snd ∧
        Operator.ofTokens operators = .ok (pairs.map Prod.fst) ∧
        ∀ host env, (Expr.chain operands operators).eval host env =
          Expr.evalPairs host env first pairs) ∧
    (∀ n, Expr.int n ∈ p.parts → 0 ≤ n ∧ n ≤ Int64.maxValue) ∧
    (∀ s ∈ p.statements, ∀ target value, s.action = .assign target value →
      ∃ name, target = .var name) ∧
    ∀ world fuel i report j, Interpreter.interpret world fuel p i = some (report, j) →
      ∀ failure, report.outcome = .error failure →
        failure.error ≠ .unsupportedAssignmentTarget ∧ failure.error ≠ .emptyChain ∧
          ∀ text, failure.error ≠ .unknownOperator text := by
  have hshaped := (Grammar.derives_of_parses h).shaped
  refine ⟨fun operands operators hpart => ?_, fun n hpart => ?_, fun s hs => (hshaped s hs).2, ?_⟩
  · have hjoined : Joined operands operators := hshaped.every_part _ hpart
    obtain ⟨first, pairs, rfl, hops⟩ := hjoined.exists_pairs
    refine ⟨hjoined.ne_nil, hjoined.length_eq, hjoined.tier, fun word => hjoined.alone, ?_⟩
    exact ⟨first, pairs, rfl, hops, fun host env => Expr.eval_chain_eq host env hops⟩
  · exact ⟨hshaped.every_part _ hpart, n.le_maxValue⟩
  · intro world fuel i report j hrun failure hout
    obtain ⟨m, m', -, hs⟩ := Interpreter.fails_iff.1 ⟨fuel, report, j, hrun, hout⟩
    have hcause := hshaped.not_excluded hs
    refine ⟨fun he => hcause (.inr he), fun he => hcause (.inl ?_), fun text he => hcause (.inl ?_)⟩
    all_goals
      rw [he]
      rfl

/-- In the line `x = 1 + 2 - 3` both operators have an operand of their own. -/
theorem Parser.sound_sum :
    let place (column : UInt32) : Position := ⟨"main", 1, column⟩
    let plus : Token := ⟨"+", place 7, 1⟩
    let minus : Token := ⟨"-", place 11, 1⟩
    let tokens : List Token :=
      [⟨"x", place 1, 1⟩, ⟨"=", place 3, 1⟩, ⟨"1", place 5, 1⟩, plus, ⟨"2", place 9, 1⟩, minus,
        ⟨"3", place 13, 1⟩]
    let operands : List Expr := [.int 1, .int 2, .int 3]
    let p : Program := ⟨[⟨.assign (.var "x") (.chain operands [plus, minus]), place 1⟩]⟩
    Parser.program "main" tokens = .ok p ∧
      (∃ first pairs, operands = first :: pairs.map Prod.snd ∧
        Operator.ofTokens [plus, minus] = .ok (pairs.map Prod.fst) ∧
        ∀ host env, (Expr.chain operands [plus, minus]).eval host env =
          Expr.evalPairs host env first pairs) ∧
      ∀ world fuel i report j, Interpreter.interpret world fuel p i = some (report, j) →
        ∀ failure, report.outcome = .error failure →
          failure.error ≠ .unsupportedAssignmentTarget ∧ failure.error ≠ .emptyChain ∧
            ∀ text, failure.error ≠ .unknownOperator text := by
  intro place plus minus tokens operands p
  have hoperand {t : Token} {e : Expr} (h : Grammar.Entity [t] e) : Grammar.Suffixed [t] e :=
    .entity h (fun _ => noneAhead_nil _) .nil
  have hnumber (t : Token) (n : Nat) (h : Literal.isDigits t.text)
      (hn : Number.natOfDigits t.text.toList = n) (hlt : n < Nat.pow 2 63) :
      Grammar.Chain [["*", "/", "%"]] [t] (.int (Int64.ofNat n)) := by
    have hvalue : Literal.int t = .ok (.int (Int64.ofNat n)) := by rw [Literal.int, hn, if_pos hlt]
    exact .single (.unary (.suffixed (hoperand (.int h hvalue))))
  have hone := hnumber ⟨"1", place 5, 1⟩ 1 (by decide) (by decide) (by decide)
  have htwo := hnumber ⟨"2", place 9, 1⟩ 2 (by decide) (by decide) (by decide)
  have hthree := hnumber ⟨"3", place 13, 1⟩ 3 (by decide) (by decide) (by decide)
  have hlinks : Grammar.Links ["+", "-"] [["*", "/", "%"]] (tokens.drop 3)
      [(plus, .int 2), (minus, .int 3)] :=
    .cons (by decide) htwo (.cons (by decide) hthree .nil)
  have hsum : Grammar.Expression (tokens.drop 2) (.chain operands [plus, minus]) :=
    .single (.single (.single (.single (.joined hone hlinks (List.cons_ne_nil _ _)))))
  have hvar : Grammar.Expression [⟨"x", place 1, 1⟩] (.var "x") := by
    have hent := Grammar.Entity.var (t := ⟨"x", place 1, 1⟩) (by decide) (by decide)
    exact .single (.single (.single (.single (.single (.single
      (.unary (.suffixed (hoperand hent))))))))
  have hline : Grammar.Line tokens (.assign (.var "x") (.chain operands [plus, minus])) :=
    .assign ((noneAhead_cons ..).2 (by decide)) hvar rfl hsum
  have hlines : Grammar.Lines tokens p.statements := .last (.mk hline) (List.forall_mem_nil _)
  have hderived : Grammar.Derives tokens p := .lines (List.forall_mem_nil _) hlines
  have hparsed : Parser.program "main" tokens = .ok p := hderived.parses
  obtain ⟨hchains, -, -, hruns⟩ := Parser.sound_of_program_eq_ok hparsed
  have hpart : Expr.chain operands [plus, minus] ∈ p.parts := by
    simp [p, Program.parts, Action.exprs, Expr.parts]
  exact ⟨hparsed, (hchains _ _ hpart).2.2.2.2, hruns⟩

end GotoScript
