import GotoScript.Proofs.Running.Evaluation

/-!
# Chains pair by pair

A chain is kept as two lists, and evaluating it walks both until one ends. Where the lists were read
together, every operator meets one operand and none is left over: the chain is its first operand and
then pairs of an operator and an operand.

* `Operator.ofTokens_eq_ok_iff` : which operators tokens spell;
* `Joined.exists_pairs` : what was read together falls into pairs;
* `Expr.evalPairs`, `Expr.eval_chain_eq` : such a chain is evaluated by folding over all its pairs;
* `Expr.origin_of_shaped` : an expression that was parsed has no error of form.
-/

namespace GotoScript

/-! ## Operators -/

namespace Operator

theorem ofTokens_cons_eq_ok_iff {t : Token} {tokens : List Token} {operators : List Operator} :
    ofTokens (t :: tokens) = .ok operators ↔
      ∃ op more, ofText? t.text = some op ∧ ofTokens tokens = .ok more ∧ operators = op :: more := by
  rw [ofTokens]
  cases ofText? t.text with
  | none => simp
  | some op =>
      cases ofTokens tokens with
      | error e => simp [bind, Except.bind]
      | ok more => simp [bind, Except.bind, pure, Except.pure, eq_comm]

theorem ofTokens_eq_ok_iff {tokens : List Token} {operators : List Operator} :
    ofTokens tokens = .ok operators ↔ tokens.map (fun t => ofText? t.text) = operators.map some := by
  induction tokens generalizing operators with
  | nil => cases operators <;> simp [ofTokens]
  | cons t tokens ih =>
      rw [ofTokens_cons_eq_ok_iff, List.map_cons]
      constructor
      · rintro ⟨op, more, hop, hmore, rfl⟩
        rw [List.map_cons, hop, ih.1 hmore]
      · intro h
        obtain ⟨op, more, rfl, hop, hmore⟩ := List.map_eq_cons_iff.1 h.symm
        exact ⟨op, more, hop.symm, ih.2 hmore.symm, rfl⟩

theorem length_of_ofTokens {tokens : List Token} {operators : List Operator}
    (h : ofTokens tokens = .ok operators) : operators.length = tokens.length := by
  have hspelled := congrArg List.length (ofTokens_eq_ok_iff.1 h)
  simpa using hspelled.symm

/-- Every text of the table of tiers spells an operator. -/
theorem ofText?_of_tier : ∀ tier ∈ Parser.tiers, ∀ text ∈ tier, (ofText? text).isSome := by
  decide

theorem exists_ofTokens {tokens : List Token} (h : ∀ t ∈ tokens, (ofText? t.text).isSome) :
    ∃ operators, ofTokens tokens = .ok operators := by
  induction tokens with
  | nil => exact ⟨[], rfl⟩
  | cons t tokens ih =>
      obtain ⟨ht, hrest⟩ := List.forall_mem_cons.1 h
      obtain ⟨op, hop⟩ := Option.isSome_iff_exists.1 ht
      obtain ⟨more, hmore⟩ := ih hrest
      exact ⟨op :: more, ofTokens_cons_eq_ok_iff.2 ⟨op, more, hop, hmore, rfl⟩⟩

end Operator

/-- Operands and operators that were read together fall into pairs, with one operand before them. -/
theorem Joined.exists_pairs {operands : List Expr} {tokens : List Token} (h : Joined operands tokens) :
    ∃ (first : Expr) (pairs : List (Operator × Expr)), operands = first :: pairs.map Prod.snd ∧
      Operator.ofTokens tokens = .ok (pairs.map Prod.fst) := by
  obtain ⟨tier, htier, hall⟩ := h.tier
  obtain ⟨operators, hops⟩ := Operator.exists_ofTokens fun t ht =>
    Operator.ofText?_of_tier tier htier t.text (hall t ht)
  obtain ⟨first, rest, rfl⟩ := List.exists_cons_of_length_eq_add_one h.length_eq
  have hspelled := Operator.length_of_ofTokens hops
  have hlength := h.length_eq
  rw [List.length_cons] at hlength
  refine ⟨first, operators.zip rest, ?_, ?_⟩
  · rw [List.map_snd_zip (by omega)]
  · rw [List.map_fst_zip (by omega), hops]

/-! ## Folding over pairs -/

theorem Value.applyAll_eq_foldlM (first : Value) (operators : List Operator) (values : List Value) :
    first.applyAll operators values =
      (operators.zip values).foldlM (fun acc pair => acc.apply pair.1 pair.2) first := by
  induction operators generalizing first values with
  | nil => rfl
  | cons op operators ih =>
      cases values with
      | nil => rfl
      | cons v values =>
          rw [applyAll, List.zip_cons_cons, List.foldlM_cons]
          exact congrArg _ (funext fun next => ih next values)

namespace Expr

variable (host : Host) (env : Environment)

/-- Takes one pair more, unless the value so far settles what the pair can give. -/
def joinLazily (acc : Value) (pair : Operator × Expr) : Eval Value :=
  if Value.settles pair.1 acc then return acc
  else do
    let right ← pair.2.eval host env
    Eval.ofExcept (acc.apply pair.1 right)

/-- Evaluates a first operand and pairs. With a logical operator among them the pairs are taken one at
a time; otherwise all operands are evaluated first. -/
def evalPairs (first : Expr) (pairs : List (Operator × Expr)) : Eval Value := do
  let first ← first.eval host env
  if pairs.any (·.1.isLogical) then pairs.foldlM (joinLazily host env) first
  else do
    let values ← pairs.mapM fun pair => return (pair.1, ← pair.2.eval host env)
    Eval.ofExcept (values.foldlM (fun acc pair => acc.apply pair.1 pair.2) first)

theorem evalLazily_eq_foldlM (acc : Value) (operators : List Operator) (rest : List Expr) :
    evalLazily host env acc operators rest = (operators.zip rest).foldlM (joinLazily host env) acc := by
  induction operators generalizing acc rest with
  | nil => rw [evalLazily.eq_def, List.zip_nil_left, List.foldlM_nil]
  | cons op operators ih =>
      cases rest with
      | nil => rw [evalLazily.eq_def, List.zip_nil_right, List.foldlM_nil]
      | cons e rest =>
          rw [evalLazily, List.zip_cons_cons, List.foldlM_cons, joinLazily]
          split
          · rw [pure_bind, ih]
          · simp only [bind_assoc, ih]

theorem mapM_pairs_eq (pairs : List (Operator × Expr)) :
    (pairs.mapM fun pair => return (pair.1, ← pair.2.eval host env)) =
      (return (pairs.map Prod.fst).zip (← evalAll host env (pairs.map Prod.snd)) :
        Eval (List (Operator × Value))) := by
  induction pairs with
  | nil => simp [evalAll]
  | cons pair pairs ih =>
      rw [List.mapM_cons, ih]
      simp only [List.map_cons, evalAll, bind_assoc, pure_bind, List.zip_cons_cons]

/-- A chain that falls into pairs is evaluated by folding over all of them. -/
theorem eval_chain_eq {first : Expr} {pairs : List (Operator × Expr)} {tokens : List Token}
    (h : Operator.ofTokens tokens = .ok (pairs.map Prod.fst)) :
    (Expr.chain (first :: pairs.map Prod.snd) tokens).eval host env =
      evalPairs host env first pairs := by
  have hpairs : (pairs.map Prod.fst).zip (pairs.map Prod.snd) = pairs := by
    rw [List.zip_map', List.map_id']
  rw [eval, h, evalPairs, mapM_pairs_eq]
  simp only [Eval.ofExcept, pure_bind, bind_assoc, List.any_map, evalLazily_eq_foldlM, hpairs,
    Value.applyAll_eq_foldlM]
  rfl

end Expr

/-! ## Errors of parsed expressions -/

theorem Expr.Shaped.formAllowed {e : Expr} (h : e.Shaped) :
    e.FormAllowed (·.origin = .values) := by
  cases e with
  | chain operands tokens =>
      obtain ⟨first, pairs, rfl, hops⟩ := Joined.exists_pairs h
      refine ⟨fun error herr => ?_, nofun⟩
      rw [hops] at herr
      cases herr
  | _ => trivial

/-- All errors of a parsed expression are about the values that it meets. -/
theorem Expr.origin_of_shaped {host : Host} {env : Environment} {e : Expr} {error : RuntimeError}
    (h : e.Every Expr.Shaped) (herr : e.value host env = .error error) : error.origin = .values :=
  Expr.allowed_of_value (fun _ => id) (fun x hx => (h x hx).formAllowed) herr

end GotoScript
