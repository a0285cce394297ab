import GotoScript.Proofs.Documents.RoundTrip
import GotoScript.Proofs.Running.Folding

/-!
# Loose chains

A chain that is read from a source has one operand more than it has operators. One that is received as a
document need not: operands and operators are paired as long as there are both. This module says what becomes
of what is left over.

* `Expr.paired` : the part of a chain that has the right form; `Expr.unpaired` : the operands that are
  evaluated although their values are not used;
* `Expr.evaluates_iff_paired` : what a chain evaluates to is what its paired part evaluates to;
* `Expr.chain_fails_iff` : the chains that fail. Every chain without an infinite float can be received.
-/

namespace GotoScript

namespace Expr

/-- The part of a chain that has one operand more than it has operators. -/
def paired (operands : List Expr) (tokens : List Token) : Expr :=
  .chain (operands.take (tokens.length + 1)) (tokens.take (operands.length - 1))

/-- The operands that no operator is left for, unless the chain passes over operands. -/
def unpaired (operands : List Expr) (tokens : List Token) : List Expr :=
  if tokens.any fun t => (Operator.ofText? t.text).any Operator.isLogical then []
  else operands.drop (tokens.length + 1)

variable {host : Host} {env : Environment} {first : Expr} {operands rest : List Expr} {tokens : List Token}
  {operators : List Operator} {v : Value} {added : List Event}

theorem zip_take_take {α β : Type} (as : List α) (bs : List β) :
    (as.take bs.length).zip (bs.take as.length) = as.zip bs := by
  induction as generalizing bs with
  | nil => simp
  | cons a as ih =>
      cases bs with
      | nil => rfl
      | cons b bs => simp [ih]

theorem ofTokens_take (h : Operator.ofTokens tokens = .ok operators) (n : Nat) :
    Operator.ofTokens (tokens.take n) = .ok (operators.take n) := by
  rw [Operator.ofTokens_eq_ok_iff] at h ⊢
  rw [List.map_take, List.map_take, h]

theorem unpaired_eq_spare (h : Operator.ofTokens tokens = .ok operators) :
    unpaired (first :: rest) tokens = spare operators rest := by
  have hlength := Operator.length_of_ofTokens h
  have hany : (tokens.map fun t => Operator.ofText? t.text).any (·.any Operator.isLogical) =
      operators.any Operator.isLogical := by
    rw [Operator.ofTokens_eq_ok_iff.1 h, List.any_map]
    rfl
  rw [List.any_map] at hany
  rw [unpaired, spare, List.drop_succ_cons, ← hlength, ← hany]
  rfl

theorem isSome_of_ofTokens (h : Operator.ofTokens tokens = .ok operators) :
    ∀ t ∈ tokens, (Operator.ofText? t.text).isSome := by
  have hsome : ∀ o ∈ tokens.map fun t => Operator.ofText? t.text, o.isSome := by
    rw [Operator.ofTokens_eq_ok_iff.1 h]
    exact List.forall_mem_map.2 fun _ _ => rfl
  exact List.forall_mem_map.1 hsome

/-- The paired part of a chain pairs the same operands with the same operators, and has none to spare. -/
theorem evaluates_paired_iff (h : Operator.ofTokens tokens = .ok operators) :
    Evaluates host env ((first :: rest).take (tokens.length + 1)) (tokens.take rest.length) v added ↔
      ∃ x folded, first.value host env = .ok x ∧ Folds host env x (operators.zip rest) v folded ∧
        added = folded ++ first.effects host env := by
  have hlength := Operator.length_of_ofTokens h
  have hops := ofTokens_take h rest.length
  have hzip : (operators.take rest.length).zip (rest.take tokens.length) = operators.zip rest := by
    rw [← hlength, zip_take_take]
  have hspare : (rest.take tokens.length).length ≤ (operators.take rest.length).length := by
    rw [List.length_take, List.length_take]
    omega
  rw [List.take_succ_cons]
  constructor
  · rintro ⟨hops', hfirst, hfolds, -, hadded⟩
    cases hops.symm.trans hops'
    rw [hzip] at hfolds
    rw [spare_eq_nil hspare] at hadded
    exact ⟨_, _, hfirst, hfolds, hadded⟩
  · rintro ⟨x, folded, hfirst, hfolds, rfl⟩
    exact .of_folds hops hfirst (hzip ▸ hfolds) hspare

/-- A chain evaluates to what its paired part evaluates to, if all its operators are known and the operands
that are left over have values. -/
theorem evaluates_iff_paired :
    Evaluates host env operands tokens v added ↔
      (∀ t ∈ tokens, (Operator.ofText? t.text).isSome) ∧
      (∀ e ∈ unpaired operands tokens, ∃ w, e.value host env = .ok w) ∧
      ∃ folded, Evaluates host env (operands.take (tokens.length + 1)) (tokens.take (operands.length - 1)) v folded ∧
        added = (unpaired operands tokens).reverse.flatMap (effects host env) ++ folded := by
  cases operands with
  | nil =>
      rw [List.take_nil]
      constructor
      · rintro ⟨⟩
      · rintro ⟨-, -, _, ⟨⟩, -⟩
  | cons first rest =>
      rw [List.length_cons, Nat.add_sub_cancel]
      constructor
      · rintro ⟨hops, hfirst, hfolds, hspare, rfl⟩
        rw [unpaired_eq_spare hops, List.append_assoc]
        exact ⟨isSome_of_ofTokens hops, hspare, _, (evaluates_paired_iff hops).2 ⟨_, _, hfirst, hfolds, rfl⟩, rfl⟩
      · rintro ⟨hknown, hspare, folded, h, rfl⟩
        obtain ⟨operators, hops⟩ := Operator.exists_ofTokens hknown
        obtain ⟨x, folded, hfirst, hfolds, rfl⟩ := (evaluates_paired_iff hops).1 h
        rw [unpaired_eq_spare hops] at hspare ⊢
        exact .mk hops hfirst hfolds hspare (List.append_assoc _ _ _).symm

theorem value_chain_iff_paired :
    (Expr.chain operands tokens).value host env = .ok v ↔
      (∀ t ∈ tokens, (Operator.ofText? t.text).isSome) ∧ (paired operands tokens).value host env = .ok v ∧
        ∀ e ∈ unpaired operands tokens, ∃ w, e.value host env = .ok w := by
  constructor
  · intro h
    obtain ⟨hknown, hspare, folded, hpaired, -⟩ := evaluates_iff_paired.1 (exists_evaluates h)
    exact ⟨hknown, (eq_of_yields hpaired.yields).1, hspare⟩
  · rintro ⟨hknown, hpaired, hspare⟩
    exact (eq_of_yields (evaluates_iff_paired.2 ⟨hknown, hspare, _, exists_evaluates hpaired, rfl⟩).yields).1

theorem fails_iff_ne_ok {e : Expr} :
    (∃ error, e.value host env = .error error) ↔ ¬ ∃ v, e.value host env = .ok v := by
  cases e.value host env <;> simp

/-- The chains that fail: one of their operators is unknown, their paired part fails, or one of the operands
does that are left over and that are evaluated. The value of any other chain is that of its paired part, whatever
is left over. Nothing keeps such a chain from being received. -/
theorem chain_fails_iff (host : Host) (env : Environment) (operands : List Expr) (tokens : List Token) :
    ((∃ error, (Expr.chain operands tokens).value host env = .error error) ↔
      (∃ t ∈ tokens, Operator.ofText? t.text = none) ∨
      (∃ error, (paired operands tokens).value host env = .error error) ∨
      ∃ e ∈ unpaired operands tokens, ∃ error, e.value host env = .error error) ∧
    (∀ v, (Expr.chain operands tokens).value host env = .ok v →
      (paired operands tokens).value host env = .ok v ∧
      (Expr.chain operands tokens).effects host env =
        (unpaired operands tokens).reverse.flatMap (effects host env) ++ (paired operands tokens).effects host env) ∧
    ((Expr.chain operands tokens).floatsFinite →
      ∃ document p, Program.ofDocument? document = some p ∧ Expr.chain operands tokens ∈ p.parts) := by
  refine ⟨?_, ?_, ?_⟩
  · have hvalue : (∃ v, (Expr.chain operands tokens).value host env = .ok v) ↔
        (∀ t ∈ tokens, (Operator.ofText? t.text).isSome) ∧
        (∃ v, (paired operands tokens).value host env = .ok v) ∧
        ∀ e ∈ unpaired operands tokens, ∃ w, e.value host env = .ok w := by
      simp only [value_chain_iff_paired, exists_and_left, exists_and_right]
    simp only [fails_iff_ne_ok, hvalue, Classical.not_and_iff_not_or_not, Classical.not_forall, exists_prop,
      Option.not_isSome_iff_eq_none]
  · intro v hv
    obtain ⟨-, -, folded, h, hadded⟩ := evaluates_iff_paired.1 (exists_evaluates hv)
    obtain ⟨hvalue, rfl⟩ := eq_of_yields h.yields
    exact ⟨hvalue, hadded⟩
  · intro hfinite
    let p : Program := ⟨[⟨.print (.chain operands tokens), ⟨"main", 1, 1⟩⟩]⟩
    have hp : p.floatsFinite = true := by simpa [p, Program.floatsFinite, Action.floatsFinite] using hfinite
    refine ⟨p.toDocument.canonical, p, by rw [Program.ofDocument?_canonical, if_pos hp], ?_⟩
    simp [p, Program.parts, Action.exprs, parts]

/-- Two chains of a received program: the first has an operand too many, the second an operator. Both have a
value. -/
theorem received_loose_chains_have_values :
    ∃ document p, Program.ofDocument? document = some p ∧
      (∃ operands tokens, Expr.chain operands tokens ∈ p.parts ∧ tokens.length + 1 < operands.length ∧
        ∀ host env, (Expr.chain operands tokens).value host env = .ok (.int 1)) ∧
      ∃ operands tokens, Expr.chain operands tokens ∈ p.parts ∧ operands.length < tokens.length + 1 ∧
        ∀ host env, (Expr.chain operands tokens).value host env = .ok (.int 1) := by
  let p : Program := ⟨[⟨.print (.chain [.int 1, .int 2] []), ⟨"main", 1, 1⟩⟩,
    ⟨.print (.chain [.int 1] [⟨"+", ⟨"main", 2, 9⟩, 1⟩]), ⟨"main", 2, 1⟩⟩]⟩
  refine ⟨p.toDocument.canonical, p, ?_, ⟨[.int 1, .int 2], [], ?_, by decide, fun _ _ => rfl⟩,
    ⟨[.int 1], [⟨"+", ⟨"main", 2, 9⟩, 1⟩], ?_, by decide, fun _ _ => rfl⟩⟩
  · rw [Program.ofDocument?_canonical]
    rfl
  · simp [p, Program.parts, Action.exprs, parts]
  · simp [p, Program.parts, Action.exprs, parts]

end Expr

end GotoScript
