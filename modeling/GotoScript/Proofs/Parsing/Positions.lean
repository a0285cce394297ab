import GotoScript.Proofs.Parsing.Shape
import GotoScript.Proofs.Scanning.Tokens

/-!
# Positions in parsed programs

A program records where its statements and its operators stand. The grammar looks at the texts of tokens
only, so tokens at other places derive the same program at those places.

* `Expr.moved`, `Statement.moved`, `Program.moved` : the same at other places;
* `Grammar.Chain.moved`, `Grammar.Derives.moved` : derivations do not depend on places;
* `Program.positions` : all places that a program records; `Grammar.Derives.positions_subset` : they are
  places of its tokens;
* `Grammar.Derives.append` : two programs with a line end between them are one program.
-/

namespace GotoScript

/-! ## Other places -/

variable (g : Position → Position)

namespace Expr

mutual

/-- The expression with its operators at other places. -/
def moved : Expr → Expr
  | .chain operands operators => .chain (movedAll operands) (operators.map (Token.moved g))
  | .field root name => .field root.moved name
  | .index root key => .index root.moved key.moved
  | .call root args => .call root.moved (movedAll args)
  | .not e => .not e.moved
  | .negate e => .negate e.moved
  | e => e

def movedAll : List Expr → List Expr
  | [] => []
  | e :: rest => e.moved :: movedAll rest

end

theorem movedAll_eq_map (es : List Expr) : movedAll g es = es.map (moved g) := by
  induction es with
  | nil => rfl
  | cons e es ih => rw [movedAll, ih, List.map_cons]

end Expr

def Action.moved : Action → Action
  | .label name => .label name
  | .branch condition whenTrue whenFalse => .branch (condition.moved g) whenTrue whenFalse
  | .jump name => .jump name
  | .print e => .print (e.moved g)
  | .assign target value => .assign (target.moved g) (value.moved g)
  | .evaluate e => .evaluate (e.moved g)

/-- The statement at another place, with its operators at other places. -/
def Statement.moved (s : Statement) : Statement :=
  ⟨s.action.moved g, g s.position⟩

def Program.moved (p : Program) : Program :=
  ⟨p.statements.map (Statement.moved g)⟩

/-! ## Recorded places -/

/-- The operators at the top of an expression. -/
def Expr.operators : Expr → List Token
  | .chain _ operators => operators
  | _ => []

/-- The place of a statement and those of all operators in it. -/
def Statement.positions (s : Statement) : List Position :=
  s.position :: ((s.action.exprs.flatMap Expr.parts).flatMap Expr.operators).map (·.position)

/-- All places that a program records. -/
def Program.positions (p : Program) : List Position :=
  p.statements.flatMap Statement.positions

namespace Expr

mutual

theorem parts_moved (e : Expr) : (e.moved g).parts = e.parts.map (moved g) := by
  match e with
  | .chain operands operators =>
      rw [moved, parts, partsOfAll_movedAll operands, parts, List.map_cons, moved]
  | .field root name => rw [moved, parts, parts_moved root, parts, List.map_cons, moved]
  | .index root key =>
      rw [moved, parts, parts_moved root, parts_moved key, parts, List.map_cons, List.map_append,
        moved]
  | .call root args =>
      rw [moved, parts, parts_moved root, partsOfAll_movedAll args, parts, List.map_cons,
        List.map_append, moved]
  | .not e => rw [moved, parts, parts_moved e, parts, List.map_cons, moved]
  | .negate e => rw [moved, parts, parts_moved e, parts, List.map_cons, moved]
  | .int _ | .float _ | .text _ | .bool _ | .null | .var _ | .system _ | .serviceRoot => rfl

theorem partsOfAll_movedAll (es : List Expr) :
    partsOfAll (movedAll g es) = (partsOfAll es).map (moved g) := by
  match es with
  | [] => rfl
  | e :: es =>
      rw [movedAll, partsOfAll, parts_moved e, partsOfAll_movedAll es, partsOfAll, List.map_append]

end

theorem operators_moved (e : Expr) : (e.moved g).operators = e.operators.map (Token.moved g) := by
  cases e <;> rfl

end Expr

theorem Action.exprs_moved (action : Action) :
    (action.moved g).exprs = action.exprs.map (Expr.moved g) := by
  cases action <;> rfl

theorem Statement.positions_moved (s : Statement) : (s.moved g).positions = s.positions.map g := by
  simp [positions, moved, Action.exprs_moved, List.flatMap_map, List.map_flatMap, Expr.parts_moved,
    Expr.operators_moved, Token.moved, Function.comp_def, List.flatMap_assoc]

theorem Program.positions_moved (p : Program) : (p.moved g).positions = p.positions.map g := by
  simp only [positions, moved, List.flatMap_map, List.map_flatMap, Statement.positions_moved]

/-! ## Derivations -/

namespace Grammar

variable {g} {ts ss : List Token}

theorem noneAhead_moved {texts : List String} (h : NoneAhead texts ts) :
    NoneAhead texts (ts.map (Token.moved g)) := by
  intro t ht
  rw [List.head?_map] at ht
  obtain ⟨u, hu, rfl⟩ := Option.map_eq_some_iff.1 ht
  exact h u hu

theorem isWhole_of_moved (h : IsWhole (ts.map (Token.moved g))) : IsWhole ts := by
  obtain ⟨t, hts, ht⟩ := h
  obtain ⟨u, rfl, rfl⟩ := List.map_eq_singleton_iff.1 hts
  exact ⟨u, rfl, ht⟩

theorem int_moved {t : Token} {e : Expr} (h : Literal.int t = .ok e) :
    Literal.int (t.moved g) = .ok e := by
  rw [Literal.int] at h ⊢
  split at h
  case isTrue hlt => exact (if_pos hlt).trans h
  case isFalse => cases h

theorem text_moved {t : Token} {value : String} (h : Literal.text t = .ok value) :
    Literal.text (t.moved g) = .ok value := by
  rw [Literal.text] at h ⊢
  rw [show (t.moved g).text = t.text from rfl]
  split at h
  case h_1 => exact h
  case h_2 => cases h

theorem Entity.moved {e : Expr} (h : Entity ts e) :
    Entity (ts.map (Token.moved g)) (e.moved g) := by
  cases h with
  | bool h => exact .bool h
  | null h => exact .null h
  | system h hname => exact .system h hname
  | text h hvalue => exact .text h (text_moved hvalue)
  | serviceRoot h => exact .serviceRoot h
  | var h hfree => exact .var h hfree
  | @int t e h hvalue =>
      have hliteral : e.moved g = e := by
        rw [Literal.int] at hvalue
        split at hvalue
        case isTrue => cases hvalue; rfl
        case isFalse => cases hvalue
      rw [hliteral]
      exact .int h (int_moved hvalue)
  | float hw hp hd => exact .float hw hp hd
  | fraction hp hd => exact .fraction hp hd

mutual

theorem Chain.moved {tiers : List (List String)} {ts : List Token} {e : Expr}
    (h : Chain tiers ts e) : Chain tiers (ts.map (Token.moved g)) (e.moved g) := by
  match h with
  | .unary hu => exact .unary hu.moved
  | .single hc => exact .single hc.moved
  | .joined hc hl hne =>
      have hchain := Chain.joined hc.moved hl.moved (mt List.map_eq_nil_iff.1 hne)
      simpa [Expr.moved, Expr.movedAll_eq_map, Function.comp_def] using hchain

theorem Links.moved {operators : List String} {tighter : List (List String)} {ls : List Token}
    {more : List (Token × Expr)} (h : Links operators tighter ls more) :
    Links operators tighter (ls.map (Token.moved g))
      (more.map fun link => (link.1.moved g, link.2.moved g)) := by
  match h with
  | .nil => exact .nil
  | .cons hop hc hl =>
      rw [List.map_append]
      exact .cons hop hc.moved hl.moved

theorem Unary.moved {ts : List Token} {e : Expr} (h : Unary ts e) :
    Unary (ts.map (Token.moved g)) (e.moved g) := by
  match h with
  | .not ht hu => exact .not ht hu.moved
  | .negate ht hu => exact .negate ht hu.moved
  | .suffixed hs => exact .suffixed hs.moved

theorem Suffixed.moved {ts : List Token} {e : Expr} (h : Suffixed ts e) :
    Suffixed (ts.map (Token.moved g)) (e.moved g) := by
  match h with
  | .entity hent hw hs =>
      rw [List.map_append]
      exact .entity hent.moved (fun hwhole => noneAhead_moved (hw (isWhole_of_moved hwhole))) hs.moved
  | .group hl hc hr hs =>
      rw [List.map_append]
      exact .group hl hc.moved hr hs.moved

theorem Suffixes.moved {root : Expr} {ss : List Token} {e : Expr} (h : Suffixes root ss e) :
    Suffixes (root.moved g) (ss.map (Token.moved g)) (e.moved g) := by
  match h with
  | .nil => exact .nil
  | .field hp hn hs => exact .field hp hn hs.moved
  | .index hl hc hr hs =>
      rw [List.map_append]
      exact .index hl hc.moved hr hs.moved
  | .call hl ha hr hs =>
      rw [List.map_append]
      exact .call hl ha.moved hr hs.moved

theorem Arguments.moved {ts : List Token} {args : List Expr} (h : Arguments ts args) :
    Arguments (ts.map (Token.moved g)) (Expr.movedAll g args) := by
  match h with
  | .nil => exact .nil
  | .cons hc hl =>
      rw [List.map_append]
      exact .cons hc.moved hl.moved

theorem MoreArguments.moved {ls : List Token} {args : List Expr} (h : MoreArguments ls args) :
    MoreArguments (ls.map (Token.moved g)) (Expr.movedAll g args) := by
  match h with
  | .nil => exact .nil
  | .cons hcomma hc hl =>
      rw [List.map_append]
      exact .cons hcomma hc.moved hl.moved

end

theorem Label.moved {name : String} (h : Label ts name) : Label (ts.map (Token.moved g)) name := by
  cases h with
  | mk hs hn => exact .mk hs hn

theorem Otherwise.moved {name : Option String} (h : Otherwise ts name) :
    Otherwise (ts.map (Token.moved g)) name := by
  cases h with
  | absent => exact .absent
  | label hw hl => exact .label hw hl.moved
  | gotoLabel hw hg hl => exact .gotoLabel hw hg hl.moved

theorem Line.moved {action : Action} (h : Line ts action) :
    Line (ts.map (Token.moved g)) (action.moved g) := by
  cases h with
  | label hl => exact .label hl.moved
  | branch hw hc hg ht ho =>
      rw [List.map_append, List.map_append]
      exact .branch hw (Chain.moved hc) hg ht.moved ho.moved
  | jump hw hl => exact .jump hw hl.moved
  | print hw he => exact .print hw (Chain.moved he)
  | assign hf hv hs he =>
      rw [List.map_append]
      exact .assign (noneAhead_moved hf) (Chain.moved hv) hs (Chain.moved he)
  | evaluate hf he => exact .evaluate (noneAhead_moved hf) (Chain.moved he)

theorem Sentence.moved {s : Statement} (h : Sentence ts s) :
    Sentence (ts.map (Token.moved g)) (s.moved g) := by
  cases h with
  | mk hl => exact .mk hl.moved

theorem isNewline_moved {ns : List Token} (h : ∀ n ∈ ns, n.isNewline) :
    ∀ n ∈ ns.map (Token.moved g), n.isNewline :=
  List.forall_mem_map.2 h

theorem Lines.moved {statements : List Statement} (h : Lines ts statements) :
    Lines (ts.map (Token.moved g)) (statements.map (Statement.moved g)) := by
  induction h with
  | last hs hn =>
      rw [List.map_append]
      exact .last hs.moved (isNewline_moved hn)
  | cons hs hn hne _ ih =>
      rw [List.map_append, List.map_append]
      exact .cons hs.moved (isNewline_moved hn) (mt List.map_eq_nil_iff.1 hne) ih

/-- Tokens at other places derive the program at those places. -/
theorem Derives.moved {p : Program} (h : Derives ts p) (g : Position → Position) :
    Derives (ts.map (Token.moved g)) (p.moved g) := by
  cases h with
  | blank hn => exact .blank (isNewline_moved hn)
  | lines hn hl =>
      rw [List.map_append]
      exact .lines (isNewline_moved hn) hl.moved

/-- A program records places of its tokens only. -/
theorem Derives.positions_subset {p : Program} (h : Derives ts p) :
    p.positions ⊆ ts.map (·.position) := by
  -- Moving all places but those of the tokens leaves the tokens alone, and so it leaves the program alone.
  let g (q : Position) : Position :=
    if q ∈ ts.map (·.position) then q else { q with line := q.line + 1 }
  have htokens : ts.map (Token.moved g) = ts := by
    refine (List.map_congr_left fun t ht => ?_).trans (List.map_id ts)
    rw [Token.moved, show g t.position = t.position from if_pos (List.mem_map_of_mem ht)]
    rfl
  have hprogram : p.moved g = p := by
    have hmoved : Parser.program "" (ts.map (Token.moved g)) = .ok (p.moved g) :=
      (h.moved g).parses
    rw [htokens, h.parses] at hmoved
    exact (Except.ok.inj hmoved).symm
  have hpositions : p.positions.map g = p.positions.map id := by
    rw [← p.positions_moved, hprogram, List.map_id]
  intro q hq
  by_contra hno
  have hsame : g q = q := List.map_inj_left.1 hpositions q hq
  rw [show g q = { q with line := q.line + 1 } from if_neg hno] at hsame
  have hline : q.line + 1 = q.line := congrArg Position.line hsame
  simp at hline

/-! ## One program after another -/

theorem Lines.append_newlines {statements : List Statement} {ns : List Token}
    (h : Lines ts statements) (hn : ∀ n ∈ ns, n.isNewline) : Lines (ts ++ ns) statements := by
  induction h with
  | last hs hn' =>
      rw [List.append_assoc]
      exact .last hs (List.forall_mem_append.2 ⟨hn', hn⟩)
  | cons hs hn' hne _ ih =>
      rw [List.append_assoc]
      exact .cons hs hn' hne ih

theorem Lines.append {statements more : List Statement} {ns : List Token} (h : Lines ts statements)
    (hn : ∀ n ∈ ns, n.isNewline) (hne : ns ≠ []) (h' : Lines ss more) :
    Lines (ts ++ ns ++ ss) (statements ++ more) := by
  induction h with
  | @last ts ns' s hs hn' =>
      rw [List.append_assoc ts]
      exact .cons hs (List.forall_mem_append.2 ⟨hn', hn⟩) (by simp [hne]) h'
  | @cons ts ns' ls s more hs hn' hne' _ ih =>
      rw [List.append_assoc (ts ++ ns'), List.append_assoc (ts ++ ns')]
      exact .cons hs hn' hne' (List.append_assoc ls ns ss ▸ ih)

/-- Two programs with a line end between them are one. -/
theorem Derives.append {p q : Program} {n : Token} (h : Derives ts p) (hn : n.isNewline)
    (h' : Derives ss q) : Derives (ts ++ n :: ss) ⟨p.statements ++ q.statements⟩ := by
  cases h with
  | blank hn' =>
    cases h' with
    | blank hn'' =>
      refine .blank (List.forall_mem_append.2 ⟨hn', List.forall_mem_cons.2 ⟨hn, hn''⟩⟩)
    | @lines ns ls statements hn'' hl =>
      rw [← List.cons_append, ← List.append_assoc]
      exact .lines (List.forall_mem_append.2 ⟨hn', List.forall_mem_cons.2 ⟨hn, hn''⟩⟩) hl
  | @lines ns ls statements hn' hl =>
    cases h' with
    | blank hn'' =>
      rw [List.append_assoc, List.append_nil]
      exact .lines hn' (hl.append_newlines (List.forall_mem_cons.2 ⟨hn, hn''⟩))
    | @lines ns' ls' statements' hn'' hl' =>
      rw [List.append_assoc, ← List.cons_append, ← List.append_assoc ls]
      exact .lines hn' (hl.append (List.forall_mem_cons.2 ⟨hn, hn''⟩) (List.cons_ne_nil _ _) hl')

end Grammar

end GotoScript
