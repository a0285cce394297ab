import GotoScript.Proofs.Running.Folding

/-!
# Short circuits

A chain of one logical operator is evaluated from the left until an operand settles it. This module says
how far evaluation goes and what comes of it, operand by operand.

* `Expr.Decides` : the operands that are evaluated, those that are not, and the result;
  `Expr.exists_decides` : all operands there are fall under it;
* `Expr.joinAll` : one operand after the other joined to a value; `Expr.eval_chain_eq_joinAll` : a chain whose
  first operand is a truth value, or fails, is joined to the value that settles nothing;
* `Expr.Decides.yields` : what is decided is what the chain gives, whatever stands in place of the other operands;
* `Expr.short_circuit` : all of it, and the value that evaluating all operands would give.
-/

namespace GotoScript.Expr

variable {host : Host} {env : Environment} {b : Bool} {passed later rest others : List Expr}
  {first second e : Expr} {v w : Value} {error : RuntimeError} {result : Except RuntimeError Value}
  {added : List Event} {operands : List Expr} {tokens : List Token}

/-! ## How far evaluation goes -/

section

variable (host env)

/-- The operands give the truth value that settles nothing. -/
def Passes (b : Bool) (es : List Expr) : Prop :=
  ∀ e ∈ es, e.value host env = .ok (.bool !b)

/-- What becomes of operands that are joined by the operator which `b` settles: those that are evaluated, those
that are not, and the result. -/
inductive Decides (b : Bool) : List Expr → List Expr → Except RuntimeError Value → Prop where
  /-- The first operand to give `b` settles the result. -/
  | settled {passed later : List Expr} {e : Expr} (hpassed : Passes host env b passed)
    (he : e.value host env = .ok (.bool b)) : Decides b (passed ++ [e]) later (.ok (.bool b))
  /-- No operand settles it. -/
  | exhausted {passed : List Expr} (hpassed : Passes host env b passed) : Decides b passed [] (.ok (.bool !b))
  | failed {passed later : List Expr} {e : Expr} {error : RuntimeError} (hpassed : Passes host env b passed)
    (he : e.value host env = .error error) : Decides b (passed ++ [e]) later (.error error)
  /-- An operand after the first is no truth value. -/
  | mistyped {passed later : List Expr} {e : Expr} {v : Value} (hpassed : Passes host env b passed)
    (hne : passed ≠ []) (he : e.value host env = .ok v) (hv : v.tag ≠ .bool) :
    Decides b (passed ++ [e]) later (.error (.operandTypes .bool (.settledBy b) v.tag))
  /-- The first operand is no truth value, which is noticed once the second has a value. -/
  | mistypedFirst {first second : Expr} {later : List Expr} {v w : Value}
    (hfirst : first.value host env = .ok v) (hv : v.tag ≠ .bool) (hsecond : second.value host env = .ok w) :
    Decides b [first, second] later (.error (.operandTypes v.tag (.settledBy b) w.tag))
  | failedSecond {first second : Expr} {later : List Expr} {v : Value} {error : RuntimeError}
    (hfirst : first.value host env = .ok v) (hv : v.tag ≠ .bool)
    (hsecond : second.value host env = .error error) : Decides b [first, second] later (.error error)

end

theorem eq_bool_or_eq_not (b : Bool) (hv : v.tag = .bool) : v = .bool b ∨ v = .bool !b := by
  obtain ⟨x, rfl⟩ := Value.tag_eq_bool_iff.1 hv
  cases b <;> cases x <;> simp

/-- After operands that settle nothing, the others decide. -/
theorem exists_decides_of_passes (hpassed : Passes host env b passed) (hne : passed ≠ []) (rest : List Expr) :
    ∃ evaluated later result, passed ++ rest = evaluated ++ later ∧
      Decides host env b evaluated later result := by
  induction rest generalizing passed with
  | nil => exact ⟨passed, [], _, rfl, .exhausted hpassed⟩
  | cons e rest ih =>
      rw [List.append_cons]
      cases he : e.value host env with
      | error error => exact ⟨_, rest, _, rfl, .failed hpassed he⟩
      | ok v =>
          by_cases hv : v.tag = .bool
          · rcases eq_bool_or_eq_not b hv with rfl | rfl
            · exact ⟨_, rest, _, rfl, .settled hpassed he⟩
            · have hpassed' : Passes host env b (passed ++ [e]) :=
                List.forall_mem_append.2 ⟨hpassed, List.forall_mem_singleton.2 he⟩
              exact ih hpassed' (List.append_ne_nil_of_right_ne_nil _ (List.cons_ne_nil _ _))
          · exact ⟨_, rest, _, rfl, .mistyped hpassed hne he hv⟩

theorem exists_decides (b : Bool) (first second : Expr) (rest : List Expr) :
    ∃ evaluated later result, first :: second :: rest = evaluated ++ later ∧
      Decides host env b evaluated later result := by
  have hnone : Passes host env b [] := List.forall_mem_nil _
  cases hfirst : first.value host env with
  | error error => exact ⟨[first], second :: rest, _, rfl, .failed hnone hfirst⟩
  | ok v =>
      by_cases hv : v.tag = .bool
      · rcases eq_bool_or_eq_not b hv with rfl | rfl
        · exact ⟨[first], second :: rest, _, rfl, .settled hnone hfirst⟩
        · have hpassed : Passes host env b [first] := List.forall_mem_singleton.2 hfirst
          exact exists_decides_of_passes hpassed (List.cons_ne_nil _ _) (second :: rest)
      -- whether the first operand is of the right type is only asked once the second has a value
      · cases hsecond : second.value host env with
        | error error => exact ⟨[first, second], rest, _, rfl, .failedSecond hfirst hv hsecond⟩
        | ok w => exact ⟨[first, second], rest, _, rfl, .mistypedFirst hfirst hv hsecond⟩

/-! ## One operand after another -/

theorem zip_replicate {α : Type} (op : Operator) (l : List α) :
    (List.replicate l.length op).zip l = l.map (op, ·) := by
  induction l with
  | nil => rfl
  | cons a l ih => rw [List.length_cons, List.replicate_succ, List.zip_cons_cons, ih, List.map_cons]

section

variable (host env)

/-- Joins operands to a value by the operator that `b` settles. -/
def joinAll (b : Bool) (acc : Value) (es : List Expr) : Eval Value :=
  es.foldlM (fun acc e => joinLazily host env acc (.settledBy b, e)) acc

theorem eval_chain_cons_of_text_eq (htokens : tokens ≠ []) (hlength : rest.length = tokens.length)
    (htext : ∀ t ∈ tokens, t.text = (Operator.settledBy b).text) :
    (Expr.chain (first :: rest) tokens).eval host env =
      first.eval host env >>= fun x => joinAll host env b x rest := by
  have hlogical : (List.replicate tokens.length (Operator.settledBy b)).any Operator.isLogical = true := by
    simp [htokens, Operator.isLogical_settledBy]
  rw [eval_chain_cons host env (Operator.ofTokens_of_text_eq htext), hlogical, ← hlength, zip_replicate]
  simp only [if_true, List.foldlM_map]
  rfl

end

theorem not_settles_not (b : Bool) : ¬ (Value.bool !b).settles (.settledBy b) := by
  cases b <;> decide

theorem not_settles_of_tag_ne (b : Bool) (hv : v.tag ≠ .bool) : ¬ v.settles (.settledBy b) := by
  intro h
  obtain ⟨x, -, rfl⟩ := Value.settles_iff.1 h
  exact hv rfl

theorem tag_of_passes (hpassed : Passes host env b passed) (he : e ∈ passed) (hv : e.value host env = .ok v) :
    v.tag = .bool := by
  cases (hpassed e he).symm.trans hv
  rfl

theorem yields_joinLazily_of_bool {x : Bool} (he : e.value host env = .ok (.bool x)) :
    (joinLazily host env (.bool !b) (.settledBy b, e)).Yields (.ok (.bool x)) (e.effects host env) := by
  have h := yields_joinLazily_of_ok (not_settles_not b) he
  rwa [Value.apply_bool, if_neg (by simp)] at h

theorem yields_joinLazily_of_tag_ne (he : e.value host env = .ok v) (hv : v.tag ≠ .bool) :
    (joinLazily host env (.bool !b) (.settledBy b, e)).Yields
      (.error (.operandTypes .bool (.settledBy b) v.tag)) (e.effects host env) := by
  have h := yields_joinLazily_of_ok (not_settles_not b) he
  rwa [Value.apply_of_tag_ne (.inr hv)] at h

/-- The value that settles nothing takes on that of the operand it is joined to. -/
theorem joinLazily_not (hbool : ∀ v, e.value host env = .ok v → v.tag = .bool) :
    joinLazily host env (.bool !b) (.settledBy b, e) = e.eval host env := by
  have hjoin : (joinLazily host env (.bool !b) (.settledBy b, e)).Yields (e.value host env)
      (e.effects host env) := by
    cases he : e.value host env with
    | error error => exact yields_joinLazily_of_error (not_settles_not b) he
    | ok v =>
        obtain ⟨x, rfl⟩ := Value.tag_eq_bool_iff.1 (hbool v he)
        exact yields_joinLazily_of_bool he
  funext events
  exact (hjoin events).trans (e.yields_eval events).symm

theorem eval_chain_eq_joinAll (htokens : tokens ≠ []) (hlength : operands.length = tokens.length + 1)
    (htext : ∀ t ∈ tokens, t.text = (Operator.settledBy b).text)
    (hbool : ∀ first ∈ operands.head?, ∀ v, first.value host env = .ok v → v.tag = .bool) :
    (Expr.chain operands tokens).eval host env = joinAll host env b (.bool !b) operands := by
  obtain ⟨first, rest, rfl⟩ := List.exists_cons_of_length_eq_add_one hlength
  rw [eval_chain_cons_of_text_eq host env htokens (Nat.succ.inj hlength) htext, joinAll, List.foldlM_cons,
    joinLazily_not (hbool first rfl)]
  rfl

theorem joinAll_cons (acc : Value) (e : Expr) (es : List Expr) :
    joinAll host env b acc (e :: es) =
      joinLazily host env acc (.settledBy b, e) >>= fun next => joinAll host env b next es :=
  List.foldlM_cons

theorem yields_joinAll_settled (es : List Expr) :
    (joinAll host env b (.bool b) es).Yields (.ok (.bool b)) [] := by
  induction es with
  | nil => exact Eval.yields_pure _
  | cons e es ih =>
      rw [joinAll_cons]
      exact (yields_joinLazily_of_settles (Value.settles_iff.2 ⟨b, rfl, rfl⟩)).silent_bind ih

/-- Operands that settle nothing leave the result to what follows them. -/
theorem yields_joinAll_append (hpassed : Passes host env b passed)
    (hrest : (joinAll host env b (.bool !b) rest).Yields result added) :
    (joinAll host env b (.bool !b) (passed ++ rest)).Yields result
      (added ++ passed.reverse.flatMap (effects host env)) := by
  induction passed with
  | nil => simpa using hrest
  | cons e passed ih =>
      obtain ⟨he, hpassed⟩ := List.forall_mem_cons.1 hpassed
      rw [List.cons_append, joinAll_cons, List.reverse_cons, List.flatMap_append, List.flatMap_singleton,
        ← List.append_assoc]
      exact (yields_joinLazily_of_bool he).bind (ih hpassed)

/-- The same, up to the first operand with a say in the result. -/
theorem yields_joinAll_concat (hpassed : Passes host env b passed)
    (he : (joinAll host env b (.bool !b) (e :: rest)).Yields result (e.effects host env)) :
    (joinAll host env b (.bool !b) (passed ++ [e] ++ rest)).Yields result
      ((passed ++ [e]).reverse.flatMap (effects host env)) := by
  rw [List.append_assoc, List.reverse_append, List.flatMap_append, List.reverse_singleton,
    List.flatMap_singleton]
  exact yields_joinAll_append hpassed he

/-! ## What the chain gives -/

section

variable (htokens : tokens ≠ []) (htext : ∀ t ∈ tokens, t.text = (Operator.settledBy b).text)

include htokens htext

/-- A chain up to the first operand with a say in the result. -/
theorem yields_chain_of_passes (hpassed : Passes host env b passed)
    (hlength : (passed ++ [e] ++ others).length = tokens.length + 1)
    (hbool : passed = [] → ∀ v, e.value host env = .ok v → v.tag = .bool)
    (he : (joinAll host env b (.bool !b) (e :: others)).Yields result (e.effects host env)) :
    ((Expr.chain (passed ++ [e] ++ others) tokens).eval host env).Yields result
      ((passed ++ [e]).reverse.flatMap (effects host env)) := by
  rw [eval_chain_eq_joinAll htokens hlength htext]
  · exact yields_joinAll_concat hpassed he
  · intro first hfirst v hv
    cases passed with
    | nil =>
        obtain rfl : e = first := by simpa using hfirst
        exact hbool rfl v hv
    | cons p passed =>
        obtain rfl : p = first := by simpa using hfirst
        exact tag_of_passes hpassed List.mem_cons_self hv

/-- A chain that fails at its second operand. -/
theorem yields_chain_of_second (hlength : (first :: second :: others).length = tokens.length + 1)
    (hfirst : first.value host env = .ok v)
    (hsecond : (joinLazily host env v (.settledBy b, second)).Yields (.error error) (second.effects host env)) :
    ((Expr.chain (first :: second :: others) tokens).eval host env).Yields (.error error)
      (second.effects host env ++ first.effects host env) := by
  rw [eval_chain_cons_of_text_eq host env htokens (Nat.succ.inj hlength) htext]
  refine (hfirst ▸ first.yields_eval).bind ?_
  rw [joinAll_cons]
  exact hsecond.bind_error

/-- Whatever stands in place of the operands that are not evaluated, the chain has the result that the others
decide, and the events are theirs. -/
theorem Decides.yields {evaluated : List Expr} (h : Decides host env b evaluated later result)
    (hothers : others.length = later.length) (hlength : (evaluated ++ others).length = tokens.length + 1) :
    ((Expr.chain (evaluated ++ others) tokens).eval host env).Yields result
      (evaluated.reverse.flatMap (effects host env)) := by
  cases h with
  | settled hpassed he =>
      refine yields_chain_of_passes htokens htext hpassed hlength ?_ ?_
      · intro _ v hv
        cases he.symm.trans hv
        rfl
      · rw [joinAll_cons]
        exact (yields_joinLazily_of_bool he).bind_silent (yields_joinAll_settled others)
  | exhausted hpassed =>
      obtain rfl : others = [] := List.eq_nil_of_length_eq_zero hothers
      rw [eval_chain_eq_joinAll htokens hlength htext]
      · have hnone : (joinAll host env b (.bool !b) []).Yields (.ok (.bool !b)) [] := Eval.yields_pure _
        exact yields_joinAll_append hpassed hnone
      · intro first hfirst v hv
        rw [List.append_nil] at hfirst
        exact tag_of_passes hpassed (List.mem_of_mem_head? hfirst) hv
  | failed hpassed he =>
      refine yields_chain_of_passes htokens htext hpassed hlength ?_ ?_
      · intro _ v hv
        cases he.symm.trans hv
      · rw [joinAll_cons]
        exact (yields_joinLazily_of_error (not_settles_not b) he).bind_error
  | mistyped hpassed hne he hv =>
      refine yields_chain_of_passes htokens htext hpassed hlength (fun hnil => absurd hnil hne) ?_
      rw [joinAll_cons]
      exact (yields_joinLazily_of_tag_ne he hv).bind_error
  | mistypedFirst hfirst hv hsecond =>
      have hjoin := yields_joinLazily_of_ok (not_settles_of_tag_ne b hv) hsecond
      rw [Value.apply_of_tag_ne (.inl hv)] at hjoin
      simpa using yields_chain_of_second htokens htext hlength hfirst hjoin
  | failedSecond hfirst hv hsecond =>
      have hjoin := yields_joinLazily_of_error (not_settles_of_tag_ne b hv) hsecond
      simpa using yields_chain_of_second htokens htext hlength hfirst hjoin

end

/-- Where all operands have values that the operator joins, the chain has the value that it joins them to. -/
theorem value_chain_of_values {x : Value} {values : List Value} (hlength : operands.length = tokens.length + 1)
    (htext : ∀ t ∈ tokens, t.text = (Operator.settledBy b).text)
    (hvalues : operands.map (value host env) = (x :: values).map .ok)
    (hv : values.foldlM (fun acc y => acc.apply (.settledBy b) y) x = .ok v) :
    (Expr.chain operands tokens).value host env = .ok v := by
  obtain ⟨first, rest, rfl, hfirst, hrest⟩ := List.map_eq_cons_iff.1 hvalues
  have hrestLength : rest.length = tokens.length := Nat.succ.inj hlength
  have hvaluesLength : values.length = tokens.length := by
    rw [← hrestLength, ← List.length_map (value host env), hrest, List.length_map]
  have happly : x.applyAll (List.replicate tokens.length (.settledBy b)) values = .ok v := by
    rw [Value.applyAll_eq_foldlM, ← hvaluesLength, zip_replicate, List.foldlM_map]
    exact hv
  obtain ⟨folded, hfolds⟩ := exists_folds_of_values hrest happly
  have hspare : rest.length ≤ (List.replicate tokens.length (Operator.settledBy b)).length :=
    Nat.le_of_eq (hrestLength.trans List.length_replicate.symm)
  exact (eq_of_yields (Evaluates.of_folds (Operator.ofTokens_of_text_eq htext) hfirst hfolds hspare).yields).1

/-- A chain of one logical operator. Its operands fall into those that are evaluated, in their order, and the
others; these can be any others without a change to the result or to the events. Where all operands have values
that the operator joins, the result is what it joins them to. -/
theorem short_circuit (host : Host) (env : Environment) (b : Bool) (operands : List Expr) (tokens : List Token)
    (htokens : tokens ≠ []) (hlength : operands.length = tokens.length + 1)
    (htext : ∀ t ∈ tokens, t.text = (Operator.settledBy b).text) :
    (∃ evaluated later result, operands = evaluated ++ later ∧ Decides host env b evaluated later result) ∧
    (∀ evaluated later result, operands = evaluated ++ later → Decides host env b evaluated later result →
      ∀ others : List Expr, others.length = later.length →
        (Expr.chain (evaluated ++ others) tokens).value host env = result ∧
        (Expr.chain (evaluated ++ others) tokens).effects host env =
          evaluated.reverse.flatMap (effects host env)) ∧
    (∀ x values v, operands.map (value host env) = (x :: values).map .ok →
      values.foldlM (fun acc y => acc.apply (.settledBy b) y) x = .ok v →
      (Expr.chain operands tokens).value host env = .ok v) := by
  refine ⟨?_, ?_, ?_⟩
  · obtain ⟨t, tokens, rfl⟩ := List.exists_cons_of_ne_nil htokens
    obtain ⟨first, rest, rfl⟩ := List.exists_cons_of_length_eq_add_one hlength
    obtain ⟨second, rest, rfl⟩ := List.exists_cons_of_length_eq_add_one (Nat.succ.inj hlength)
    exact exists_decides b first second rest
  · intro evaluated later result hoperands h others hothers
    refine eq_of_yields (h.yields htokens htext hothers ?_)
    rw [List.length_append, hothers, ← List.length_append, ← hoperands, hlength]
  · intro x values v hvalues hv
    exact value_chain_of_values hlength htext hvalues hv

/-- The second operand sends a request and settles the result; the third, which has no value, is passed over. -/
theorem short_circuit_passes_over :
    let host : Host :=
      { registry := ({} : Registry).register "echo" "1.0" (.answering { text := fun _ => .ok }), clock := 0 }
    let sends : Expr :=
      .chain [.call (.field (.field .serviceRoot "echo") "sendString") [.text "a"], .null] [⟨"==", ⟨"main", 1, 1⟩, 2⟩]
    let both : Expr :=
      .chain [.bool true, sends, .var "missing"] [⟨"and", ⟨"main", 1, 6⟩, 3⟩, ⟨"and", ⟨"main", 1, 46⟩, 3⟩]
    both.value host {} = .ok (.bool false) ∧
      both.effects host {} = [.requested "echo" "a", .called "sendString" 1] := by
  intro host sends both
  have hdecides : Decides host {} false ([.bool true] ++ [sends]) [.var "missing"] (.ok (.bool false)) :=
    .settled (List.forall_mem_singleton.2 rfl) rfl
  have h := (short_circuit host {} false [.bool true, sends, .var "missing"]
    [⟨"and", ⟨"main", 1, 6⟩, 3⟩, ⟨"and", ⟨"main", 1, 46⟩, 3⟩] (List.cons_ne_nil _ _) rfl (by decide)).2.1
    _ _ _ rfl hdecides [.var "missing"] rfl
  exact h

end GotoScript.Expr
