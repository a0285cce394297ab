import GotoScript.Proofs.Parsing.Programs

/-!
# The shape of parsed programs

A program that was received may hold chains of any form. One that was parsed does not: this module
follows the grammar and says what its expressions and assignments look like, however deep they stand.

* `Expr.parts` : an expression and all that stands inside it; `Expr.Every P` : all of them have `P`;
* `Joined` : one operand more than operators, at least one operator, all operators of one tier;
* `Expr.Shaped`, `Action.Shaped`, `Program.Shaped` : chains are joined, integers are not negative, and
  only variables are assigned to;
* `Grammar.Chain.shaped`, `Grammar.Line.shaped`, `Grammar.Derives.shaped` : all that the grammar
  derives is shaped.
-/

namespace GotoScript

/-! ## Parts of expressions -/

namespace Expr

mutual

/-- The expression itself and all expressions inside it. -/
def parts : Expr → List Expr
  | .chain operands operators => .chain operands operators :: partsOfAll operands
  | .field root name => .field root name :: root.parts
  | .index root key => .index root key :: (root.parts ++ key.parts)
  | .call root args => .call root args :: (root.parts ++ partsOfAll args)
  | .not e => .not e :: e.parts
  | .negate e => .negate e :: e.parts
  | e => [e]

def partsOfAll : List Expr → List Expr
  | [] => []
  | e :: rest => e.parts ++ partsOfAll rest

end

theorem mem_partsOfAll {x : Expr} {es : List Expr} : x ∈ partsOfAll es ↔ ∃ e ∈ es, x ∈ e.parts := by
  induction es with
  | nil => simp [partsOfAll]
  | cons e es ih => simp [partsOfAll, ih]

/-- The expression and all expressions inside it have the property. -/
def Every (P : Expr → Prop) (e : Expr) : Prop :=
  ∀ x ∈ e.parts, P x

variable {P : Expr → Prop} {e root key : Expr} {operands args : List Expr} {operators : List Token}

theorem every_partsOfAll {es : List Expr} :
    (∀ x ∈ partsOfAll es, P x) ↔ ∀ e ∈ es, e.Every P := by
  simp only [mem_partsOfAll, Every]
  exact ⟨fun h e he x hx => h x ⟨e, he, hx⟩, fun h x ⟨e, he, hx⟩ => h e he x hx⟩

theorem every_chain :
    (Expr.chain operands operators).Every P ↔
      P (.chain operands operators) ∧ ∀ e ∈ operands, e.Every P := by
  rw [Every, parts, List.forall_mem_cons, every_partsOfAll]

theorem every_field {name : String} :
    (Expr.field root name).Every P ↔ P (.field root name) ∧ root.Every P := by
  rw [Every, parts, List.forall_mem_cons, Every]

theorem every_index :
    (Expr.index root key).Every P ↔ P (.index root key) ∧ root.Every P ∧ key.Every P := by
  rw [Every, parts, List.forall_mem_cons, List.forall_mem_append, Every, Every]

theorem every_call :
    (Expr.call root args).Every P ↔
      P (.call root args) ∧ root.Every P ∧ ∀ e ∈ args, e.Every P := by
  rw [Every, parts, List.forall_mem_cons, List.forall_mem_append, Every, every_partsOfAll]

theorem every_not : (Expr.not e).Every P ↔ P (.not e) ∧ e.Every P := by
  rw [Every, parts, List.forall_mem_cons, Every]

theorem every_negate : (Expr.negate e).Every P ↔ P (.negate e) ∧ e.Every P := by
  rw [Every, parts, List.forall_mem_cons, Every]

/-- An expression with nothing inside. -/
theorem every_of_parts (hparts : e.parts = [e]) (h : P e) : e.Every P := by
  rw [Every, hparts]
  simpa using h

end Expr

/-- The expressions that a statement holds. -/
def Action.exprs : Action → List Expr
  | .label _ | .jump _ => []
  | .branch condition _ _ => [condition]
  | .print e | .evaluate e => [e]
  | .assign target value => [target, value]

/-- All expressions of a program, at every depth. -/
def Program.parts (p : Program) : List Expr :=
  p.statements.flatMap fun s => s.action.exprs.flatMap Expr.parts

/-! ## Shapes -/

/-- Operands and operators that were read together: between any two operands there is one operator,
and all operators are of the same tier. -/
structure Joined (operands : List Expr) (operators : List Token) : Prop where
  ne_nil : operators ≠ []
  length_eq : operands.length = operators.length + 1
  tier : ∃ tier ∈ Parser.tiers, ∀ t ∈ operators, t.text ∈ tier

/-- The only operator of its tier is the only operator of its chain. -/
theorem Joined.alone {operands : List Expr} {operators : List Token} (h : Joined operands operators)
    {word : String} (hword : word = "and" ∨ word = "or") (hmem : ∃ t ∈ operators, t.text = word) :
    ∀ t ∈ operators, t.text = word := by
  obtain ⟨tier, htier, hall⟩ := h.tier
  obtain ⟨t, ht, rfl⟩ := hmem
  have hsingle : ∀ tier ∈ Parser.tiers, ∀ w ∈ tier, w = "and" ∨ w = "or" → tier = [w] := by decide
  have heq := hsingle tier htier t.text (hall t ht) hword
  intro s hs
  have hin := hall s hs
  rw [heq, List.mem_singleton] at hin
  exact hin

/-- What the parser makes sure of at one node. -/
def Expr.Shaped : Expr → Prop
  | .chain operands operators => Joined operands operators
  | .int n => 0 ≤ n
  | _ => True

def Action.Shaped (action : Action) : Prop :=
  (∀ e ∈ action.exprs, e.Every Expr.Shaped) ∧
    ∀ target value, action = .assign target value → ∃ name, target = .var name

def Program.Shaped (p : Program) : Prop :=
  ∀ s ∈ p.statements, s.action.Shaped

theorem Program.Shaped.every_part {p : Program} (h : p.Shaped) : ∀ e ∈ p.parts, e.Shaped := by
  intro e he
  obtain ⟨s, hs, hin⟩ := List.mem_flatMap.1 he
  obtain ⟨x, hx, hpart⟩ := List.mem_flatMap.1 hin
  exact (h s hs).1 x hx e hpart

/-! ## What is derived is shaped -/

namespace Grammar

theorem Entity.shaped {ts : List Token} {e : Expr} (h : Entity ts e) : e.Every Expr.Shaped := by
  cases h with
  | bool | null | system | text | serviceRoot | var | float | fraction =>
      exact Expr.every_of_parts rfl trivial
  | @int t e _ hvalue =>
      rw [Literal.int] at hvalue
      split at hvalue
      case isFalse => cases hvalue
      case isTrue hlt =>
        cases hvalue
        refine Expr.every_of_parts rfl ?_
        rw [Expr.Shaped, Int64.le_iff_toInt_le, Int64.toInt_ofNat_of_lt hlt]
        exact Int.natCast_nonneg _

-- The tiers of a chain are a tail of all tiers: in parentheses, keys and arguments all come back.
mutual

theorem Chain.shaped {tiers : List (List String)} {ts : List Token} {e : Expr} (h : Chain tiers ts e)
    (htiers : tiers ⊆ Parser.tiers) : e.Every Expr.Shaped := by
  match h with
  | .unary hu => exact hu.shaped
  | .single hc => exact hc.shaped (List.subset_of_cons_subset htiers)
  | @Chain.joined operators _ _ _ first more hc hl hne =>
      have htighter := List.subset_of_cons_subset htiers
      obtain ⟨hoperators, hoperands⟩ := hl.shaped htighter
      rw [Expr.every_chain, List.forall_mem_cons]
      refine ⟨⟨?_, by simp, operators, htiers List.mem_cons_self, hoperators⟩, ?_, hoperands⟩
      · simpa using hne
      · exact hc.shaped htighter

theorem Links.shaped {operators : List String} {tighter : List (List String)} {ls : List Token}
    {more : List (Token × Expr)} (h : Links operators tighter ls more)
    (htiers : tighter ⊆ Parser.tiers) :
    (∀ t ∈ more.map (·.1), t.text ∈ operators) ∧ ∀ e ∈ more.map (·.2), e.Every Expr.Shaped := by
  match h with
  | .nil => exact ⟨List.forall_mem_nil _, List.forall_mem_nil _⟩
  | .cons hop hc hl =>
      obtain ⟨hoperators, hoperands⟩ := hl.shaped htiers
      refine ⟨List.forall_mem_cons.2 ⟨hop, hoperators⟩, ?_⟩
      exact List.forall_mem_cons.2 ⟨hc.shaped htiers, hoperands⟩

theorem Unary.shaped {ts : List Token} {e : Expr} (h : Unary ts e) : e.Every Expr.Shaped := by
  match h with
  | .not _ hu => exact Expr.every_not.2 ⟨trivial, hu.shaped⟩
  | .negate _ hu => exact Expr.every_negate.2 ⟨trivial, hu.shaped⟩
  | .suffixed hs => exact hs.shaped

theorem Suffixed.shaped {ts : List Token} {e : Expr} (h : Suffixed ts e) : e.Every Expr.Shaped := by
  match h with
  | .entity hent _ hs => exact hs.shaped hent.shaped
  | .group _ hc _ hs => exact hs.shaped (hc.shaped (List.Subset.refl _))

theorem Suffixes.shaped {root : Expr} {ss : List Token} {e : Expr} (h : Suffixes root ss e)
    (hroot : root.Every Expr.Shaped) : e.Every Expr.Shaped := by
  match h with
  | .nil => exact hroot
  | .field _ _ hs => exact hs.shaped (Expr.every_field.2 ⟨trivial, hroot⟩)
  | .index _ hc _ hs =>
      have hkey := hc.shaped (List.Subset.refl _)
      exact hs.shaped (Expr.every_index.2 ⟨trivial, hroot, hkey⟩)
  | .call _ ha _ hs => exact hs.shaped (Expr.every_call.2 ⟨trivial, hroot, ha.shaped⟩)

theorem Arguments.shaped {ts : List Token} {args : List Expr} (h : Arguments ts args) :
    ∀ e ∈ args, e.Every Expr.Shaped := by
  match h with
  | .nil => exact List.forall_mem_nil _
  | .cons hc hl => exact List.forall_mem_cons.2 ⟨hc.shaped (List.Subset.refl _), hl.shaped⟩

theorem MoreArguments.shaped {ls : List Token} {args : List Expr} (h : MoreArguments ls args) :
    ∀ e ∈ args, e.Every Expr.Shaped := by
  match h with
  | .nil => exact List.forall_mem_nil _
  | .cons _ hc hl => exact List.forall_mem_cons.2 ⟨hc.shaped (List.Subset.refl _), hl.shaped⟩

end

theorem Expression.shaped {ts : List Token} {e : Expr} (h : Expression ts e) :
    e.Every Expr.Shaped :=
  Chain.shaped h (List.Subset.refl _)

theorem Line.shaped {ts : List Token} {action : Action} (h : Line ts action) : action.Shaped := by
  cases h with
  | label _ => exact ⟨List.forall_mem_nil _, nofun⟩
  | branch _ hc _ _ _ => exact ⟨List.forall_mem_singleton.2 (Expression.shaped hc), nofun⟩
  | jump _ _ => exact ⟨List.forall_mem_nil _, nofun⟩
  | print _ he => exact ⟨List.forall_mem_singleton.2 (Expression.shaped he), nofun⟩
  | @assign _ _ _ name e _ hv _ he =>
      refine ⟨?_, fun target value heq => ?_⟩
      · refine List.forall_mem_cons.2 ⟨Expression.shaped hv, ?_⟩
        exact List.forall_mem_singleton.2 (Expression.shaped he)
      · cases heq
        exact ⟨name, rfl⟩
  | evaluate _ he => exact ⟨List.forall_mem_singleton.2 (Expression.shaped he), nofun⟩

theorem Lines.shaped {ts : List Token} {statements : List Statement} (h : Lines ts statements) :
    ∀ s ∈ statements, s.action.Shaped := by
  induction h with
  | last hs _ =>
      cases hs with
      | mk hl => exact List.forall_mem_singleton.2 hl.shaped
  | cons hs _ _ _ ih =>
      cases hs with
      | mk hl => exact List.forall_mem_cons.2 ⟨hl.shaped, ih⟩

theorem Derives.shaped {tokens : List Token} {p : Program} (h : Derives tokens p) : p.Shaped := by
  cases h with
  | blank _ => exact List.forall_mem_nil _
  | lines _ hl => exact hl.shaped

end Grammar

end GotoScript
