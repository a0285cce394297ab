import GotoScript.Proofs.Running.Folding

/-!
# Flat chains and nested ones

A chain of many operands means what the tree means that joins two at a time, from the left. The flat chain
evaluates all operands before it joins the first two, unless there is a logical operator among the others; the
tree always joins as it goes. Where both succeed they do the same things in the same order.

* `Expr.nested` : the tree; `Expr.eval_nested` : it takes one operand after the other;
* `Expr.eval_flat_of_logical` : with a logical operator the flat chain does so too;
* `Expr.flat_value_iff_nested` : the values of both, and their events and errors.
-/

namespace GotoScript

theorem Value.applyAll_singleton (x : Value) (op : Operator) (y : Value) :
    x.applyAll [op] [y] = x.apply op y := by
  unfold applyAll
  cases x.apply op y <;> rfl

namespace Expr

variable {host : Host} {env : Environment} {first : Expr} {links : List (Token × Expr)}
  {operators : List Operator}

/-- Links of an operator token and an operand, joined to a first operand one at a time. -/
def nested (first : Expr) (links : List (Token × Expr)) : Expr :=
  links.foldl (fun left link => .chain [left, link.2] [link.1]) first

/-- Two operands are joined as a pair of a longer chain is. -/
theorem eval_chain_pair {t : Token} {op : Operator} (h : Operator.ofText? t.text = some op) (left e : Expr) :
    (Expr.chain [left, e] [t]).eval host env = left.eval host env >>= fun x => joinLazily host env x (op, e) := by
  have hops : Operator.ofTokens [t] = .ok [op] :=
    Operator.ofTokens_cons_eq_ok_iff.2 ⟨op, [], h, rfl, rfl⟩
  rw [eval_chain_cons host env hops]
  congr 1
  funext x
  cases hlogical : op.isLogical with
  | true => simp [hlogical]
  | false =>
      have hs : ¬ x.settles op := by
        intro hs
        rw [isLogical_of_settles hs] at hlogical
        cases hlogical
      simp [hlogical, joinEagerly, joinLazily, hs, evalAll, Value.applyAll_singleton]

/-- The tree takes one operand after the other. -/
theorem eval_nested (h : Operator.ofTokens (links.map Prod.fst) = .ok operators) :
    (nested first links).eval host env =
      first.eval host env >>= fun x =>
        (operators.zip (links.map Prod.snd)).foldlM (joinLazily host env) x := by
  induction links generalizing first operators with
  | nil =>
      cases h
      simp [nested]
  | cons link links ih =>
      obtain ⟨op, more, hop, hmore, rfl⟩ := Operator.ofTokens_cons_eq_ok_iff.1 h
      change (nested (.chain [first, link.2] [link.1]) links).eval host env = _
      rw [ih hmore, eval_chain_pair hop, bind_assoc]
      rfl

/-- The first operand of the tree is always evaluated, and so every operator has to be known. -/
theorem ok_of_nested {v : Value} (h : (nested first links).value host env = .ok v) :
    (∃ x, first.value host env = .ok x) ∧ ∃ operators, Operator.ofTokens (links.map Prod.fst) = .ok operators := by
  induction links generalizing first with
  | nil => exact ⟨⟨v, h⟩, [], rfl⟩
  | cons link links ih =>
      obtain ⟨⟨y, hy⟩, more, hmore⟩ := ih h
      obtain ⟨hops, hfirst, -, -, -⟩ := exists_evaluates hy
      obtain ⟨op, -, hop, -, -⟩ := Operator.ofTokens_cons_eq_ok_iff.1 hops
      exact ⟨⟨_, hfirst⟩, op :: more, Operator.ofTokens_cons_eq_ok_iff.2 ⟨op, more, hop, hmore, rfl⟩⟩

/-- With a logical operator the flat chain takes one operand after the other, as the tree does. -/
theorem eval_flat_of_logical (h : Operator.ofTokens (links.map Prod.fst) = .ok operators)
    (hlogical : operators.any Operator.isLogical) :
    (Expr.chain (first :: links.map Prod.snd) (links.map Prod.fst)).eval host env =
      (nested first links).eval host env := by
  rw [eval_chain_cons host env h, eval_nested h]
  simp only [if_pos hlogical]

/-- Where the flat chain has a value, the tree comes to it with the same events. -/
theorem yields_nested_of_flat {v : Value}
    (h : (Expr.chain (first :: links.map Prod.snd) (links.map Prod.fst)).value host env = .ok v) :
    ((nested first links).eval host env).Yields (.ok v)
      ((Expr.chain (first :: links.map Prod.snd) (links.map Prod.fst)).effects host env) := by
  obtain ⟨hops, hfirst, hfolds, -, hadded⟩ := exists_evaluates h
  have hlength := Operator.length_of_ofTokens hops
  rw [spare_eq_nil (by simp [hlength])] at hadded
  rw [eval_nested hops, hadded]
  exact (hfirst ▸ yields_eval first).bind hfolds.yields

theorem ok_flat_of_nested {v : Value} (h : (nested first links).value host env = .ok v) :
    (Expr.chain (first :: links.map Prod.snd) (links.map Prod.fst)).value host env = .ok v := by
  obtain ⟨⟨x, hx⟩, operators, hops⟩ := ok_of_nested h
  have hlength := Operator.length_of_ofTokens hops
  have htree : ((nested first links).eval host env).Yields _ _ := yields_eval _
  rw [h, eval_nested hops] at htree
  rcases folds_or_fails host env x (operators.zip (links.map Prod.snd)) with
    ⟨v', folded, hfolds⟩ | ⟨error, added, herror⟩
  · obtain ⟨hv, -⟩ := htree.unique ((hx ▸ first.yields_eval).bind hfolds.yields)
    cases hv
    exact (eq_of_yields (Evaluates.of_folds hops hx hfolds (by simp [hlength])).yields).1
  · cases (htree.unique ((hx ▸ first.yields_eval).bind herror)).1

/-- With one logical operator throughout, chain and tree are evaluated alike. -/
theorem eval_flat_of_text_eq {b : Bool} (h : ∀ link ∈ links, link.1.text = (Operator.settledBy b).text) :
    (Expr.chain (first :: links.map Prod.snd) (links.map Prod.fst)).eval host env =
      (nested first links).eval host env := by
  have hops : Operator.ofTokens (links.map Prod.fst) = .ok (List.replicate _ _) :=
    Operator.ofTokens_of_text_eq (List.forall_mem_map.2 h)
  cases links with
  | nil =>
      rw [eval_chain_cons host env hops]
      simp [joinEagerly, evalAll, Value.applyAll, Eval.ofExcept, nested]
  | cons link links =>
      refine eval_flat_of_logical hops (List.any_eq_true.2 ⟨_, ?_, Operator.isLogical_settledBy b⟩)
      simp

/-- A chain has the value of the tree that joins its operands two at a time, from the left, and then the same
things happen in the same order. Where all operators are `and`, or all are `or`, they also fail alike. -/
theorem flat_value_iff_nested (host : Host) (env : Environment) (first : Expr) (links : List (Token × Expr)) :
    let flat := Expr.chain (first :: links.map Prod.snd) (links.map Prod.fst)
    let tree := nested first links
    (∀ v, flat.value host env = .ok v ↔ tree.value host env = .ok v) ∧
    (∀ v, flat.value host env = .ok v → flat.effects host env = tree.effects host env) ∧
    ((∀ link ∈ links, link.1.text = "and") ∨ (∀ link ∈ links, link.1.text = "or") →
      flat.value host env = tree.value host env ∧ flat.effects host env = tree.effects host env) := by
  intro flat tree
  refine ⟨fun v => ⟨fun h => ?_, ok_flat_of_nested⟩, fun v h => ?_, fun h => ?_⟩
  · exact (eq_of_yields (yields_nested_of_flat h)).1
  · exact (eq_of_yields (yields_nested_of_flat h)).2.symm
  · have heval : flat.eval host env = tree.eval host env := by
      rcases h with h | h
      · exact eval_flat_of_text_eq (b := false) h
      · exact eval_flat_of_text_eq (b := true) h
    exact eq_of_yields (heval ▸ tree.yields_eval)

end Expr

end GotoScript
