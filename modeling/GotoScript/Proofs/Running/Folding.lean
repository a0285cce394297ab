import GotoScript.Proofs.Running.Chains

/-!
# Chains as folds

A chain of any form takes its operands in turn, each with the operator before it, as long as there are
both. This module says which chains have a value, with the events on the way, in one relation for both
ways of evaluating: an operand that is settled beforehand is passed over, any other is evaluated and joined.

* `Eval.Yields` : the result of a computation and the events that it adds;
* `Expr.Folds` : pairs of an operator and an operand lead from one value to another;
* `Expr.Folds.yields`, `Expr.folds_or_fails` : taking the pairs one at a time; `Expr.yields_eagerly`,
  `Expr.folds_or_fails_eagerly` : evaluating all operands first, also those that no operator is left for;
* `Expr.Evaluates`, `Expr.yields_chain_iff` : the chains that have a value.
-/

namespace GotoScript

/-! ## Results with events -/

namespace Eval

variable {α β : Type} {c : Eval α} {next : α → Eval β} {result : Except RuntimeError α} {added : List Event}

/-- The computation has this result and adds these events, whatever has happened before. -/
def Yields (c : Eval α) (result : Except RuntimeError α) (added : List Event) : Prop :=
  ∀ events, c.run events = (result, added ++ events)

theorem Yields.unique {result' : Except RuntimeError α} {added' : List Event} (h : c.Yields result added)
    (h' : c.Yields result' added') : result = result' ∧ added = added' := by
  have hsame : (result, added ++ []) = (result', added' ++ []) := (h []).symm.trans (h' [])
  rw [List.append_nil, List.append_nil] at hsame
  exact Prod.mk.inj hsame

/-- Where a computation fails unless `P` holds of something, and yields what `P` holds of, it yields nothing
else. -/
theorem yields_ok_iff {P : α → List Event → Prop} (h : ∀ a added, P a added → c.Yields (.ok a) added)
    (hfails : (∃ a added, P a added) ∨ ∃ e added, c.Yields (.error e) added) {a : α} :
    c.Yields (.ok a) added ↔ P a added := by
  refine ⟨fun hyields => ?_, h a added⟩
  rcases hfails with ⟨a', added', hp⟩ | ⟨e, added', herror⟩
  · obtain ⟨ha, rfl⟩ := hyields.unique (h a' added' hp)
    cases ha
    exact hp
  · cases (hyields.unique herror).1

theorem yields_pure (a : α) : Yields (pure a) (.ok a) [] :=
  fun _ => rfl

theorem yields_ofExcept {x : Except RuntimeError α} (h : x = result) : Yields (ofExcept x) result [] := by
  intro events
  subst h
  cases x <;> rfl

theorem Yields.bind {a : α} {r : Except RuntimeError β} {more : List Event} (h : c.Yields (.ok a) added)
    (hnext : (next a).Yields r more) : (c >>= next).Yields r (more ++ added) := by
  intro events
  rw [run_bind, h events, List.append_assoc]
  exact hnext (added ++ events)

/-- What follows adds no events. -/
theorem Yields.bind_silent {a : α} {r : Except RuntimeError β} (h : c.Yields (.ok a) added)
    (hnext : (next a).Yields r []) : (c >>= next).Yields r added :=
  h.bind hnext

/-- What comes first adds no events. -/
theorem Yields.silent_bind {a : α} {r : Except RuntimeError β} {more : List Event} (h : c.Yields (.ok a) [])
    (hnext : (next a).Yields r more) : (c >>= next).Yields r more := by
  simpa using h.bind hnext

theorem Yields.bind_error {e : RuntimeError} (h : c.Yields (.error e) added) :
    (c >>= next).Yields (.error e) added := by
  intro events
  rw [run_bind, h events]

end Eval

/-! ## Logical operators -/

/-- The logical operator whose result this truth value settles: `and` for false, `or` for true. -/
def Operator.settledBy : Bool → Operator
  | false => .and
  | true => .or

namespace Operator

theorem isLogical_settledBy (b : Bool) : (settledBy b).isLogical := by
  cases b <;> rfl

theorem ofText?_text (op : Operator) : ofText? op.text = some op := by
  cases op <;> decide

/-- Tokens that all spell one operator. -/
theorem ofTokens_of_text_eq {op : Operator} {tokens : List Token} (h : ∀ t ∈ tokens, t.text = op.text) :
    ofTokens tokens = .ok (List.replicate tokens.length op) := by
  rw [ofTokens_eq_ok_iff, List.map_replicate, List.eq_replicate_iff]
  refine ⟨List.length_map _, fun o ho => ?_⟩
  obtain ⟨t, ht, rfl⟩ := List.mem_map.1 ho
  rw [h t ht, ofText?_text]

end Operator

namespace Value

theorem tag_eq_bool_iff {v : Value} : v.tag = .bool ↔ ∃ x, v = .bool x := by
  cases v <;> simp [tag]

theorem settles_iff {op : Operator} {v : Value} : v.settles op ↔ ∃ b, op = .settledBy b ∧ v = .bool b := by
  constructor
  · intro h
    rw [settles.eq_def] at h
    split at h
    · exact ⟨false, rfl, rfl⟩
    · exact ⟨true, rfl, rfl⟩
    · cases h
  · rintro ⟨b, rfl, rfl⟩
    cases b <;> rfl

/-- Of two truth values the first is the result where it settles it, and the second everywhere else. -/
theorem apply_bool (b x y : Bool) :
    (bool x).apply (.settledBy b) (bool y) = .ok (.bool (if x = b then b else y)) := by
  cases b <;> cases x <;> rfl

theorem typedOperation_of_tag_ne {b : Bool} {v w : Value} (h : v.tag ≠ .bool ∨ w.tag ≠ .bool) :
    typedOperation (.settledBy b) v w = .ok none := by
  rw [typedOperation.eq_def]
  split
  case h_5 => simp [tag] at h
  case h_6 => rfl
  -- numbers
  all_goals cases b <;> rfl

theorem apply_of_tag_ne {b : Bool} {v w : Value} (h : v.tag ≠ .bool ∨ w.tag ≠ .bool) :
    v.apply (.settledBy b) w = .error (.operandTypes v.tag (.settledBy b) w.tag) := by
  unfold apply
  rw [typedOperation_of_tag_ne h]
  cases b <;> rfl

/-- A settled result stays, if there is one. -/
theorem eq_of_apply_of_settles {op : Operator} {v w next : Value} (hs : v.settles op)
    (h : v.apply op w = .ok next) : next = v := by
  obtain ⟨b, rfl, rfl⟩ := settles_iff.1 hs
  by_cases hw : w.tag = .bool
  · obtain ⟨y, rfl⟩ := tag_eq_bool_iff.1 hw
    rw [apply_bool, if_pos rfl] at h
    exact (Except.ok.inj h).symm
  · rw [apply_of_tag_ne (.inr hw)] at h
    cases h

end Value

namespace Expr

variable {host : Host} {env : Environment}

theorem yields_eval (e : Expr) : (e.eval host env).Yields (e.value host env) (e.effects host env) :=
  run_eval e

theorem eq_of_yields {e : Expr} {result : Except RuntimeError Value} {added : List Event}
    (h : (e.eval host env).Yields result added) :
    e.value host env = result ∧ e.effects host env = added :=
  e.yields_eval.unique h

/-! ## One pair after another -/

section

variable (host env)

/-- From the first value the pairs lead to the second. A pair whose result is settled is passed over; the
operand of any other is evaluated. The events are those of the operands, the latest first. -/
inductive Folds : Value → List (Operator × Expr) → Value → List Event → Prop where
  | done {acc : Value} : Folds acc [] acc []
  | pass {acc v : Value} {op : Operator} {e : Expr} {pairs : List (Operator × Expr)} {added : List Event}
    (hs : acc.settles op) (h : Folds acc pairs v added) : Folds acc ((op, e) :: pairs) v added
  | join {acc right next v : Value} {op : Operator} {e : Expr} {pairs : List (Operator × Expr)}
    {added : List Event} (hs : ¬ acc.settles op) (hright : e.value host env = .ok right)
    (hnext : acc.apply op right = .ok next) (h : Folds next pairs v added) :
    Folds acc ((op, e) :: pairs) v (added ++ e.effects host env)

/-- Evaluates all operands and then applies the operators, as long as there are both. -/
def joinEagerly (acc : Value) (operators : List Operator) (rest : List Expr) : Eval Value := do
  let values ← evalAll host env rest
  Eval.ofExcept (acc.applyAll operators values)

end

variable {acc right v : Value} {op : Operator} {e : Expr} {pairs : List (Operator × Expr)}
  {operators : List Operator} {rest : List Expr} {added : List Event}

theorem yields_joinLazily_of_settles (hs : acc.settles op) :
    (joinLazily host env acc (op, e)).Yields (.ok acc) [] := by
  rw [joinLazily, if_pos hs]
  exact Eval.yields_pure acc

theorem yields_joinLazily_of_ok (hs : ¬ acc.settles op) (hright : e.value host env = .ok right) :
    (joinLazily host env acc (op, e)).Yields (acc.apply op right) (e.effects host env) := by
  rw [joinLazily, if_neg hs]
  exact (hright ▸ e.yields_eval).bind_silent (Eval.yields_ofExcept rfl)

theorem yields_joinLazily_of_error {error : RuntimeError} (hs : ¬ acc.settles op)
    (herror : e.value host env = .error error) :
    (joinLazily host env acc (op, e)).Yields (.error error) (e.effects host env) := by
  rw [joinLazily, if_neg hs]
  exact (herror ▸ e.yields_eval).bind_error

theorem Folds.yields (h : Folds host env acc pairs v added) :
    (pairs.foldlM (joinLazily host env) acc).Yields (.ok v) added := by
  induction h with
  | done => exact Eval.yields_pure _
  | pass hs _ ih =>
      rw [List.foldlM_cons]
      exact (yields_joinLazily_of_settles hs).silent_bind ih
  | join hs hright hnext _ ih =>
      rw [List.foldlM_cons]
      exact (hnext ▸ yields_joinLazily_of_ok hs hright).bind ih

variable (host env) in
theorem folds_or_fails (acc : Value) (pairs : List (Operator × Expr)) :
    (∃ v added, Folds host env acc pairs v added) ∨
      ∃ error added, (pairs.foldlM (joinLazily host env) acc).Yields (.error error) added := by
  induction pairs generalizing acc with
  | nil => exact .inl ⟨acc, [], .done⟩
  | cons pair pairs ih =>
      obtain ⟨op, e⟩ := pair
      rw [List.foldlM_cons]
      by_cases hs : acc.settles op
      · refine (ih acc).imp ?_ ?_
        · rintro ⟨v, added, h⟩
          exact ⟨v, added, .pass hs h⟩
        · rintro ⟨error, added, h⟩
          exact ⟨error, _, (yields_joinLazily_of_settles hs).bind h⟩
      cases hright : e.value host env with
      | error error => exact .inr ⟨error, _, (yields_joinLazily_of_error hs hright).bind_error⟩
      | ok right =>
          have hjoin := yields_joinLazily_of_ok hs hright
          cases hnext : acc.apply op right with
          | error error => exact .inr ⟨error, _, (hnext ▸ hjoin).bind_error⟩
          | ok next =>
              refine (ih next).imp ?_ ?_
              · rintro ⟨v, added, h⟩
                exact ⟨v, _, .join hs hright hnext h⟩
              · rintro ⟨error, added, h⟩
                exact ⟨error, _, (hnext ▸ hjoin).bind h⟩

/-! ## All operands first -/

theorem exists_values {es : List Expr} (h : ∀ e ∈ es, ∃ v, e.value host env = .ok v) :
    ∃ vs : List Value, es.map (value host env) = vs.map .ok := by
  induction es with
  | nil => exact ⟨[], rfl⟩
  | cons e es ih =>
      obtain ⟨⟨v, hv⟩, hes⟩ := List.forall_mem_cons.1 h
      obtain ⟨vs, hvs⟩ := ih hes
      exact ⟨v :: vs, by rw [List.map_cons, List.map_cons, hv, hvs]⟩

theorem yields_evalAll {es : List Expr} {vs : List Value} (h : es.map (value host env) = vs.map .ok) :
    (evalAll host env es).Yields (.ok vs) (es.reverse.flatMap (effects host env)) := by
  induction es generalizing vs with
  | nil =>
      obtain rfl : vs = [] := List.map_eq_nil_iff.1 h.symm
      rw [evalAll]
      exact Eval.yields_pure []
  | cons e es ih =>
      obtain ⟨v, vs, rfl, hv, hvs⟩ := List.map_eq_cons_iff.1 h.symm
      rw [evalAll, List.reverse_cons, List.flatMap_append, List.flatMap_singleton]
      have hfirst : (e.eval host env).Yields (.ok v) (e.effects host env) := hv ▸ e.yields_eval
      exact hfirst.bind ((ih hvs.symm).bind_silent (Eval.yields_pure (v :: vs)))

variable (host env) in
theorem values_or_fails (es : List Expr) :
    (∀ e ∈ es, ∃ v, e.value host env = .ok v) ∨
      ∃ error added, (evalAll host env es).Yields (.error error) added := by
  induction es with
  | nil => exact .inl (List.forall_mem_nil _)
  | cons e es ih =>
      rw [evalAll]
      cases hv : e.value host env with
      | error error => exact .inr ⟨error, _, (hv ▸ e.yields_eval).bind_error⟩
      | ok v =>
          have hfirst : (e.eval host env).Yields (.ok v) (e.effects host env) := hv ▸ e.yields_eval
          rcases ih with hes | ⟨error, added, herror⟩
          · exact .inl (List.forall_mem_cons.2 ⟨⟨v, hv⟩, hes⟩)
          · exact .inr ⟨error, _, hfirst.bind herror.bind_error⟩

/-- Where all operands have values that the operators join, the pairs lead to the result, whether or not
some of them can be passed over. -/
theorem exists_folds_of_values {vs : List Value} (hvs : rest.map (value host env) = vs.map .ok)
    (h : acc.applyAll operators vs = .ok v) : ∃ added, Folds host env acc (operators.zip rest) v added := by
  induction operators generalizing acc rest vs with
  | nil =>
      cases h
      exact ⟨[], .done⟩
  | cons op operators ih =>
      cases rest with
      | nil =>
          obtain rfl : vs = [] := List.map_eq_nil_iff.1 hvs.symm
          cases h
          exact ⟨[], .done⟩
      | cons e rest =>
          obtain ⟨right, vs, rfl, hright, hvs⟩ := List.map_eq_cons_iff.1 hvs.symm
          rw [Value.applyAll] at h
          cases hnext : acc.apply op right with
          | error error =>
              rw [hnext] at h
              cases h
          | ok next =>
              rw [hnext] at h
              obtain ⟨added, hfolds⟩ := ih hvs.symm h
              by_cases hs : acc.settles op
              · rw [Value.eq_of_apply_of_settles hs hnext] at hfolds
                exact ⟨added, .pass hs hfolds⟩
              · exact ⟨_, .join hs hright.symm hnext hfolds⟩

theorem isLogical_of_settles (h : acc.settles op) : op.isLogical := by
  obtain ⟨b, rfl, -⟩ := Value.settles_iff.1 h
  exact Operator.isLogical_settledBy b

/-- Where nothing can be passed over, operands that are led through have values that the operators join. -/
theorem Folds.exists_applyAll (h : Folds host env acc (operators.zip rest) v added)
    (hno : ∀ op ∈ operators, ¬ op.isLogical)
    (hspare : ∀ e ∈ rest.drop operators.length, ∃ w, e.value host env = .ok w) :
    ∃ vs, rest.map (value host env) = vs.map .ok ∧ acc.applyAll operators vs = .ok v ∧
      added = (rest.take operators.length).reverse.flatMap (effects host env) := by
  induction operators generalizing acc rest added with
  | nil =>
      cases h
      obtain ⟨vs, hvs⟩ := exists_values hspare
      exact ⟨vs, hvs, rfl, rfl⟩
  | cons op operators ih =>
      obtain ⟨hop, hno⟩ := List.forall_mem_cons.1 hno
      cases rest with
      | nil =>
          cases h
          exact ⟨[], rfl, rfl, rfl⟩
      | cons e rest =>
          cases h with
          | pass hs _ => exact absurd (isLogical_of_settles hs) hop
          | @join _ right next _ _ _ _ _ hs hright hnext h =>
              obtain ⟨vs, hvs, hv, rfl⟩ := ih h hno hspare
              refine ⟨right :: vs, by rw [List.map_cons, List.map_cons, hright, hvs], ?_, ?_⟩
              · rw [Value.applyAll, hnext]
                exact hv
              · rw [List.length_cons, List.take_succ_cons, List.reverse_cons, List.flatMap_append,
                  List.flatMap_singleton]

/-- Evaluating all operands first succeeds if the pairs lead to a value and the operands that are left over
have values too. -/
theorem yields_eagerly (hno : ∀ op ∈ operators, ¬ op.isLogical)
    (hspare : ∀ e ∈ rest.drop operators.length, ∃ w, e.value host env = .ok w)
    (h : Folds host env acc (operators.zip rest) v added) :
    (joinEagerly host env acc operators rest).Yields (.ok v)
      ((rest.drop operators.length).reverse.flatMap (effects host env) ++ added) := by
  obtain ⟨vs, hvs, hv, rfl⟩ := h.exists_applyAll hno hspare
  rw [← List.flatMap_append, ← List.reverse_append, List.take_append_drop]
  exact (yields_evalAll hvs).bind_silent (Eval.yields_ofExcept hv)

variable (host env) in
theorem folds_or_fails_eagerly (acc : Value) (operators : List Operator) (rest : List Expr) :
    ((∃ v added, Folds host env acc (operators.zip rest) v added) ∧
        ∀ e ∈ rest.drop operators.length, ∃ w, e.value host env = .ok w) ∨
      ∃ error added, (joinEagerly host env acc operators rest).Yields (.error error) added := by
  rcases values_or_fails host env rest with hall | ⟨error, added, herror⟩
  · obtain ⟨vs, hvs⟩ := exists_values hall
    cases hv : acc.applyAll operators vs with
    | error error => exact .inr ⟨error, _, (yields_evalAll hvs).bind (Eval.yields_ofExcept hv)⟩
    | ok v =>
        refine .inl ⟨⟨v, exists_folds_of_values hvs hv⟩, fun e he => ?_⟩
        exact hall e (List.mem_of_mem_drop he)
  · exact .inr ⟨error, added, herror.bind_error⟩

/-! ## Chains -/

/-- The operands that are evaluated although no operator is left for them: none where operands can be
passed over. -/
def spare (operators : List Operator) (rest : List Expr) : List Expr :=
  if operators.any Operator.isLogical then [] else rest.drop operators.length

theorem spare_eq_nil (h : rest.length ≤ operators.length) : spare operators rest = [] := by
  rw [spare, List.drop_eq_nil_of_le h, ite_self]

section

variable (host env)

/-- Operands and operator tokens, in whatever number, that have a value. -/
inductive Evaluates : List Expr → List Token → Value → List Event → Prop where
  | mk {first : Expr} {rest : List Expr} {tokens : List Token} {operators : List Operator} {x v : Value}
    {folded added : List Event} (hops : Operator.ofTokens tokens = .ok operators)
    (hfirst : first.value host env = .ok x) (h : Folds host env x (operators.zip rest) v folded)
    (hspare : ∀ e ∈ spare operators rest, ∃ w, e.value host env = .ok w)
    (hadded : added = (spare operators rest).reverse.flatMap (effects host env) ++ folded ++
      first.effects host env) :
    Evaluates (first :: rest) tokens v added

theorem eval_chain_cons {first : Expr} {tokens : List Token}
    (hops : Operator.ofTokens tokens = .ok operators) :
    (Expr.chain (first :: rest) tokens).eval host env =
      first.eval host env >>= fun x =>
        if operators.any Operator.isLogical then (operators.zip rest).foldlM (joinLazily host env) x
        else joinEagerly host env x operators rest := by
  rw [eval, hops]
  simp only [Eval.ofExcept, pure_bind, evalLazily_eq_foldlM]
  rfl

end

variable {operands : List Expr} {tokens : List Token}

/-- Where every operand has an operator, none is to spare. -/
theorem Evaluates.of_folds {first : Expr} {x : Value} {folded : List Event}
    (hops : Operator.ofTokens tokens = .ok operators) (hfirst : first.value host env = .ok x)
    (h : Folds host env x (operators.zip rest) v folded) (hlength : rest.length ≤ operators.length) :
    Evaluates host env (first :: rest) tokens v (folded ++ first.effects host env) := by
  have hspare := spare_eq_nil hlength
  refine .mk hops hfirst h ?_ ?_
  · rw [hspare]
    exact List.forall_mem_nil _
  · rw [hspare]
    rfl

theorem Evaluates.yields (h : Evaluates host env operands tokens v added) :
    ((Expr.chain operands tokens).eval host env).Yields (.ok v) added := by
  obtain ⟨hops, hfirst, h, hspare, rfl⟩ := h
  rw [eval_chain_cons host env hops]
  refine (hfirst ▸ yields_eval _).bind ?_
  unfold spare at hspare ⊢
  split
  case isTrue => exact h.yields
  case isFalse hno =>
    rw [if_neg hno] at hspare
    refine yields_eagerly (fun op hop hlogical => hno ?_) hspare h
    exact List.any_eq_true.2 ⟨op, hop, hlogical⟩

variable (host env) in
theorem evaluates_or_fails (operands : List Expr) (tokens : List Token) :
    (∃ v added, Evaluates host env operands tokens v added) ∨
      ∃ error added, ((Expr.chain operands tokens).eval host env).Yields (.error error) added := by
  cases hops : Operator.ofTokens tokens with
  | error error =>
      rw [eval]
      exact .inr ⟨error, [], (Eval.yields_ofExcept hops).bind_error⟩
  | ok operators =>
      cases operands with
      | nil =>
          rw [eval]
          exact .inr ⟨.emptyChain, [], (Eval.yields_ofExcept hops).bind_silent fun _ => rfl⟩
      | cons first rest =>
          rw [eval_chain_cons host env hops]
          cases hfirst : first.value host env with
          | error error => exact .inr ⟨error, _, (hfirst ▸ first.yields_eval).bind_error⟩
          | ok x =>
              have heval : (first.eval host env).Yields (.ok x) (first.effects host env) :=
                hfirst ▸ first.yields_eval
              cases hlogical : operators.any Operator.isLogical with
              | true =>
                  rcases folds_or_fails host env x (operators.zip rest) with ⟨v, added, h⟩ | ⟨error, added, herror⟩
                  · refine .inl ⟨v, _, .mk hops hfirst h ?_ rfl⟩
                    rw [spare, if_pos hlogical]
                    exact List.forall_mem_nil _
                  · exact .inr ⟨error, _, heval.bind herror⟩
              | false =>
                  rcases folds_or_fails_eagerly host env x operators rest with
                    ⟨⟨v, added, h⟩, hspare⟩ | ⟨error, added, herror⟩
                  · refine .inl ⟨v, _, .mk hops hfirst h ?_ rfl⟩
                    rw [spare, hlogical]
                    exact hspare
                  · exact .inr ⟨error, _, heval.bind herror⟩

/-- The chains that have a value, and what happens while they are evaluated. -/
theorem yields_chain_iff :
    ((Expr.chain operands tokens).eval host env).Yields (.ok v) added ↔
      Evaluates host env operands tokens v added :=
  Eval.yields_ok_iff (fun _ _ => Evaluates.yields) (evaluates_or_fails host env operands tokens)

theorem exists_evaluates (h : (Expr.chain operands tokens).value host env = .ok v) :
    Evaluates host env operands tokens v ((Expr.chain operands tokens).effects host env) :=
  yields_chain_iff.1 (h ▸ yields_eval _)

end Expr

end GotoScript
