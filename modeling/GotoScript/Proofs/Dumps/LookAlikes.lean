import GotoScript.Proofs.Dumps.Sexps
import GotoScript.Proofs.Parsing.Shape

/-!
# What looks alike in a dump

A dump leaves out the places of statements and operators. Besides, two things look alike in it: a float that is
not finite looks like a variable, and a call of `and` or `or` may look like a chain whose first operand is the
variable `call`.

* `Expr.bare`, `Program.bare` : without places;
* `Expr.asDumped`, `Program.asDumped` : without places, and of two things that look alike the same one;
* `Program.sexps_asDumped` : what looks alike has the same tree;
* `Expr.Ambiguous`, `Program.asDumped_eq_bare` : where there is nothing that looks like something else, only the
  places are left out.
-/

namespace GotoScript

/-! ## What a dump leaves out -/

/-- The token that has this text, at no place. -/
def Token.ofText (text : String) : Token :=
  ⟨text, ⟨"", 0, 0⟩, 0⟩

def Token.bare (t : Token) : Token :=
  .ofText t.text

namespace Expr

mutual

/-- The expression without the places and widths of its operators. -/
def bare : Expr → Expr
  | chain operands operators => .chain (bareAll operands) (operators.map Token.bare)
  | field root name => .field root.bare name
  | index root key => .index root.bare key.bare
  | call root args => .call root.bare (bareAll args)
  | not e => .not e.bare
  | negate e => .negate e.bare
  | e => e

def bareAll : List Expr → List Expr
  | [] => []
  | e :: rest => e.bare :: bareAll rest

end

/-- The other arguments, if every second argument is the variable `word`. -/
def between? (word : String) : List Expr → Option (List Expr)
  | [e] => some [e]
  | e :: var name :: rest => if name = word then (between? word rest).map (e :: ·) else none
  | _ => none

/-- The operands and the operator between them, if a call looks like a chain that starts with the
variable `call`. -/
def asLinks? (root : Expr) (args : List Expr) : Option (String × List Expr) :=
  match root with
  | var word => if word = "and" ∨ word = "or" then (between? word args).map (word, ·) else none
  | _ => none

/-- A call, or the chain that it looks like. -/
def callAsDumped (root : Expr) (args : List Expr) : Expr :=
  match asLinks? root args with
  | some (word, operands) =>
    .chain (.var "call" :: operands) (List.replicate operands.length (Token.ofText word))
  | none => .call root args

mutual

/-- The expression as its dump shows it: without places, a float that is not finite as a variable, and a call
that looks like a chain as that chain. -/
def asDumped : Expr → Expr
  | float x => if (Number.Binary.ofFloat? x).isSome then .float x else .var (dumpLayout.text x)
  | chain operands operators => .chain (asDumpedAll operands) (operators.map Token.bare)
  | field root name => .field root.asDumped name
  | index root key => .index root.asDumped key.asDumped
  | call root args => callAsDumped root.asDumped (asDumpedAll args)
  | not e => .not e.asDumped
  | negate e => .negate e.asDumped
  | e => e

def asDumpedAll : List Expr → List Expr
  | [] => []
  | e :: rest => e.asDumped :: asDumpedAll rest

end

/-- The expressions that look like others in a dump. -/
def Ambiguous : Expr → Prop
  | float x => Number.Binary.ofFloat? x = none
  | call root args => asLinks? root args ≠ none
  | _ => False

end Expr

def Action.bare : Action → Action
  | label name => .label name
  | branch condition whenTrue whenFalse => .branch condition.bare whenTrue whenFalse
  | jump name => .jump name
  | print e => .print e.bare
  | assign target value => .assign target.bare value.bare
  | evaluate e => .evaluate e.bare

def Action.asDumped : Action → Action
  | label name => .label name
  | branch condition whenTrue whenFalse => .branch condition.asDumped whenTrue whenFalse
  | jump name => .jump name
  | print e => .print e.asDumped
  | assign target value => .assign target.asDumped value.asDumped
  | evaluate e => .evaluate e.asDumped

/-- The program without the places of its statements and operators. -/
def Program.bare (p : Program) : Program :=
  ⟨p.statements.map fun s => ⟨s.action.bare, ⟨"", 0, 0⟩⟩⟩

/-- The program as its dump shows it. -/
def Program.asDumped (p : Program) : Program :=
  ⟨p.statements.map fun s => ⟨s.action.asDumped, ⟨"", 0, 0⟩⟩⟩

/-! ## What looks alike has the same tree -/

namespace Expr

/-- The operands of what looks like a chain, with the word between them, are the arguments. -/
theorem linkSexps_of_between? {word : String} {args operands : List Expr}
    (h : between? word args = some operands) :
    linkSexps operands (List.replicate operands.length (Token.ofText word)) = .atom word :: sexps args := by
  fun_induction between? word args generalizing operands with
  | case1 e =>
    cases h
    rfl
  | case2 e rest ih =>
    obtain ⟨later, hlater, rfl⟩ := Option.map_eq_some_iff.1 h
    rw [List.length_cons, List.replicate_succ, linkSexps, ih hlater]
    rfl
  | case3 => cases h
  | case4 => cases h

theorem sexp_callAsDumped (root : Expr) (args : List Expr) :
    (callAsDumped root args).sexp = .list (.atom "call" :: root.sexp :: sexps args) := by
  unfold callAsDumped
  split
  · next word operands h =>
    unfold asLinks? at h
    split at h
    · next name =>
      split at h
      · obtain ⟨_, hbetween, heq⟩ := Option.map_eq_some_iff.1 h
        cases heq
        simp only [sexp, linkSexps_of_between? hbetween]
      · cases h
    · cases h
  · rw [sexp]

theorem linkSexps_bare (es : List Expr) (operators : List Token) :
    linkSexps es (operators.map Token.bare) = linkSexps es operators := by
  induction es generalizing operators with
  | nil => rfl
  | cons e es ih =>
    cases operators with
    | nil => rfl
    | cons operator operators =>
      rw [List.map_cons, linkSexps, linkSexps, ih]
      rfl

mutual

theorem sexp_asDumped (e : Expr) : e.asDumped.sexp = e.sexp := by
  match e with
  | int _ | text _ | bool _ | null | var _ | system _ | serviceRoot => rfl
  | float x =>
    rw [asDumped]
    split
    · rfl
    · rfl
  | chain [] operators => rw [asDumped, asDumpedAll, sexp, sexp]
  | chain (first :: rest) operators =>
    rw [asDumped, asDumpedAll, sexp, sexp, linkSexps_bare, sexp_asDumped first, linkSexps_asDumpedAll rest]
  | field root name => rw [asDumped, sexp, sexp, sexp_asDumped root]
  | index root key => rw [asDumped, sexp, sexp, sexp_asDumped root, sexp_asDumped key]
  | call root args => rw [asDumped, sexp_callAsDumped, sexp, sexp_asDumped root, sexps_asDumpedAll args]
  | not e => rw [asDumped, sexp, sexp, sexp_asDumped e]
  | negate e => rw [asDumped, sexp, sexp, sexp_asDumped e]

theorem linkSexps_asDumpedAll (es : List Expr) (operators : List Token) :
    linkSexps (asDumpedAll es) operators = linkSexps es operators := by
  match es, operators with
  | [], _ => rfl
  | e :: rest, [] => rw [asDumpedAll, linkSexps, linkSexps, sexp_asDumped e, linkSexps_asDumpedAll rest]
  | e :: rest, operator :: operators =>
    rw [asDumpedAll, linkSexps, linkSexps, sexp_asDumped e, linkSexps_asDumpedAll rest]

theorem sexps_asDumpedAll (es : List Expr) : sexps (asDumpedAll es) = sexps es := by
  match es with
  | [] => rfl
  | e :: rest => rw [asDumpedAll, sexps, sexps, sexp_asDumped e, sexps_asDumpedAll rest]

end

end Expr

theorem Action.sexp_asDumped (action : Action) : action.asDumped.sexp = action.sexp := by
  cases action with
  | label name => rfl
  | branch condition whenTrue whenFalse =>
    cases whenFalse <;> rw [asDumped, sexp, sexp, Expr.sexp_asDumped]
  | jump name => rfl
  | print e => rw [asDumped, sexp, sexp, Expr.sexp_asDumped]
  | assign target value => rw [asDumped, sexp, sexp, Expr.sexp_asDumped, Expr.sexp_asDumped]
  | evaluate e => rw [asDumped, sexp, sexp, Expr.sexp_asDumped]

theorem Program.sexps_asDumped (p : Program) : p.asDumped.sexps = p.sexps := by
  simp only [sexps, asDumped, List.map_map, Function.comp_def, Action.sexp_asDumped]

/-! ## Where nothing looks like something else -/

namespace Expr

theorem between?_bareAll_eq_none {word : String} {args : List Expr} (h : between? word args = none) :
    between? word (bareAll args) = none := by
  fun_induction between? word args with
  | case1 e => cases h
  | case2 e rest ih => simp only [bareAll, bare, between?, ih (Option.map_eq_none_iff.1 h), if_true, Option.map_none]
  | case3 e name rest hname => simp only [bareAll, bare, between?, if_neg hname]
  | case4 args hone hnext =>
    match args with
    | [] => rfl
    | [e] => exact absurd rfl (hone e)
    | e :: other :: rest =>
      cases other with
      | var name => exact absurd rfl (hnext e name rest)
      | _ => simp only [bareAll, bare, between?]

theorem asLinks?_bare {root : Expr} {args : List Expr} (h : asLinks? root args = none) :
    asLinks? root.bare (bareAll args) = none := by
  cases root with
  | var word =>
    simp only [bare, asLinks?] at h ⊢
    split at h
    · next hword => rw [if_pos hword, between?_bareAll_eq_none (Option.map_eq_none_iff.1 h), Option.map_none]
    · next hword => rw [if_neg hword]
  | _ => simp only [bare, asLinks?]

mutual

theorem asDumped_eq_bare (e : Expr) (h : e.Every fun x => ¬ x.Ambiguous) : e.asDumped = e.bare := by
  match e with
  | int _ | text _ | bool _ | null | var _ | system _ | serviceRoot => rfl
  | float x =>
    have hfinite : ¬ Number.Binary.ofFloat? x = none := h (.float x) List.mem_cons_self
    rw [asDumped, if_pos (Option.isSome_iff_ne_none.2 hfinite)]
    rfl
  | chain operands operators =>
    rw [every_chain] at h
    rw [asDumped, bare, asDumpedAll_eq_bareAll operands h.2]
  | field root name =>
    rw [every_field] at h
    rw [asDumped, bare, asDumped_eq_bare root h.2]
  | index root key =>
    rw [every_index] at h
    rw [asDumped, bare, asDumped_eq_bare root h.2.1, asDumped_eq_bare key h.2.2]
  | call root args =>
    rw [every_call] at h
    have hlinks : asLinks? root args = none := not_not.1 h.1
    rw [asDumped, bare, asDumped_eq_bare root h.2.1, asDumpedAll_eq_bareAll args h.2.2, callAsDumped,
      asLinks?_bare hlinks]
  | not e =>
    rw [every_not] at h
    rw [asDumped, bare, asDumped_eq_bare e h.2]
  | negate e =>
    rw [every_negate] at h
    rw [asDumped, bare, asDumped_eq_bare e h.2]

theorem asDumpedAll_eq_bareAll (es : List Expr) (h : ∀ e ∈ es, e.Every fun x => ¬ x.Ambiguous) :
    asDumpedAll es = bareAll es := by
  match es with
  | [] => rfl
  | e :: rest =>
    rw [List.forall_mem_cons] at h
    rw [asDumpedAll, bareAll, asDumped_eq_bare e h.1, asDumpedAll_eq_bareAll rest h.2]

end

end Expr

theorem Action.asDumped_eq_bare (action : Action) (h : ∀ e ∈ action.exprs, e.Every fun x => ¬ x.Ambiguous) :
    action.asDumped = action.bare := by
  cases action with
  | label name => rfl
  | branch condition whenTrue whenFalse =>
    rw [asDumped, bare, Expr.asDumped_eq_bare condition (h condition List.mem_cons_self)]
  | jump name => rfl
  | print e => rw [asDumped, bare, Expr.asDumped_eq_bare e (h e List.mem_cons_self)]
  | assign target value =>
    rw [asDumped, bare, Expr.asDumped_eq_bare target (h target List.mem_cons_self),
      Expr.asDumped_eq_bare value (h value (List.mem_cons_of_mem _ List.mem_cons_self))]
  | evaluate e => rw [asDumped, bare, Expr.asDumped_eq_bare e (h e List.mem_cons_self)]

theorem Program.asDumped_eq_bare {p : Program} (h : ∀ e ∈ p.parts, ¬ e.Ambiguous) : p.asDumped = p.bare := by
  unfold asDumped bare
  congr 1
  refine List.map_congr_left fun s hs => ?_
  rw [Action.asDumped_eq_bare]
  intro e he x hx
  exact h x (List.mem_flatMap.2 ⟨s, hs, List.mem_flatMap.2 ⟨e, he, hx⟩⟩)

end GotoScript
