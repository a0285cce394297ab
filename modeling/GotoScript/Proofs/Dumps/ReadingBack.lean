import GotoScript.Proofs.Dumps.Atoms

/-!
# Reading dumps back

The tree of a dump says what was dumped, up to what looks alike. A list is read by its first item: a sign of an
expression or the word of a statement. Any other list is a chain, and so is one that starts with `call` where an
operator sign comes next; where `and` or `or` comes next, a call and a chain look alike.

* `Sexp.read`, `Sexp.readAction` : the expression and the statement that a tree stands for;
* `Expr.read_sexp`, `Action.readAction_sexp` : what is read is what was dumped;
* `Program.dump_eq_iff_asDumped_eq` : programs with the same dump look alike, and only these.
-/

namespace GotoScript

namespace Sexp

def isAtom (s : Sexp) (text : String) : Bool :=
  match s with
  | atom other => other = text
  | _ => false

/-- An operator comes next that is no word. -/
def symbolAhead : List Sexp → Bool
  | atom text :: _ => text ∈ Parser.tiers.flatten ∧ text ≠ "and" ∧ text ≠ "or"
  | _ => false

/-- The operators and operands after the first operand, the operands already read. -/
def links : List Sexp → List Expr → List (String × Expr)
  | atom operator :: _ :: rest, _ :: e :: es => (operator, e) :: links rest es
  | _, _ => []

/-- A list, its items already read. -/
def assemble (first : Sexp) (rest : List Sexp) (e : Expr) (es : List Expr) : Expr :=
  if first.isAtom "." then
    match rest, es with
    | [_, atom name], root :: _ => .field root name
    | _, _ => .null
  else if first.isAtom "[]" then
    match es with
    | [root, key] => .index root key
    | _ => .null
  else if first.isAtom "not" then
    match es with
    | [operand] => .not operand
    | _ => .null
  else if first.isAtom "-" then
    match es with
    | [operand] => .negate operand
    | _ => .null
  else if first.isAtom "call" ∧ symbolAhead rest = false then
    match es with
    | root :: args => .callAsDumped root args
    | [] => .null
  else .chain (e :: (links rest es).map (·.2)) ((links rest es).map (Token.ofText ·.1))

mutual

/-- The expression that a tree stands for. -/
noncomputable def read : Sexp → Expr
  | atom text => readAtom text
  | quoted text => .text text
  | list [] => .null
  | list (first :: rest) => assemble first rest first.read (readAll rest)

noncomputable def readAll : List Sexp → List Expr
  | [] => []
  | item :: rest => item.read :: readAll rest

end

theorem isAtom_atom (text other : String) : (atom text).isAtom other = decide (text = other) := rfl

end Sexp

namespace Expr

open Sexp

theorem mem_parts_self (e : Expr) : e ∈ e.parts := by
  cases e <;> simp [parts]

/-- The tree of a parsed expression is no atom that has no word character. -/
theorem isAtom_sexp_eq_false {e : Expr} (h : e.Readable) (sign : String)
    (hsign : (sign.toList.all fun c => !Lexeme.isWordChar c) = true) : e.sexp.isAtom sign = false := by
  cases he : e.sexp with
  | atom text =>
    obtain ⟨c, hc, hword⟩ := (leafText_of_sexp h he).wordChar
    refine decide_eq_false ?_
    rintro rfl
    have hnone := List.all_eq_true.1 hsign c hc
    rw [hword] at hnone
    cases hnone
  | quoted | list => rfl

theorem isAtom_sexp_not {e : Expr} (h : e.Readable) : e.sexp.isAtom "not" = false := by
  cases he : e.sexp with
  | atom text => exact decide_eq_false (leafText_of_sexp h he).ne_not
  | quoted | list => rfl

/-- An operand is no operator sign. -/
theorem symbolAhead_sexp {e : Expr} (h : e.Readable) (rest : List Sexp) : symbolAhead (e.sexp :: rest) = false := by
  cases he : e.sexp with
  | atom text =>
    have hsigns : ∀ word ∈ Parser.tiers.flatten, word ≠ "and" → word ≠ "or" →
        (word.toList.all fun c => !Lexeme.isWordChar c) = true := by decide
    refine decide_eq_false ?_
    rintro ⟨hmem, hand, hor⟩
    have hfalse := isAtom_sexp_eq_false h text (hsigns text hmem hand hor)
    rw [he, isAtom_atom, decide_eq_false_iff_not] at hfalse
    exact hfalse rfl
  | quoted | list => rfl

/-! ## Chains -/

theorem asDumpedAll_eq_map (es : List Expr) : asDumpedAll es = es.map asDumped := by
  induction es with
  | nil => rfl
  | cons e es ih => rw [asDumpedAll, ih, List.map_cons]

theorem readAtom_word {word : String} (h : word = "and" ∨ word = "or" ∨ word = "call") :
    readAtom word = .var word := by
  rcases h with rfl | rfl | rfl
  · exact readAtom_var (isName_of_all rfl) (by decide)
  · exact readAtom_var (isName_of_all rfl) (by decide)
  · exact readAtom_var (isName_of_all rfl) (by decide)

section

variable {es : List Expr} {operators : List Token} (hlength : es.length = operators.length)
  (hread : ∀ e ∈ es, e.sexp.read = e.asDumped)
include hlength hread

theorem links_linkSexps :
    links (linkSexps es operators) (readAll (linkSexps es operators)) =
      (operators.map (·.text)).zip (asDumpedAll es) := by
  induction es generalizing operators with
  | nil =>
    rw [List.length_nil, eq_comm, List.length_eq_zero_iff] at hlength
    subst hlength
    rfl
  | cons e es ih =>
    cases operators with
    | nil => cases hlength
    | cons operator operators =>
      rw [List.forall_mem_cons] at hread
      rw [linkSexps, readAll, readAll, links, hread.1, ih (Nat.succ.inj hlength) hread.2, asDumpedAll]
      rfl

/-- Where the operator is a word, every second item reads as that variable. -/
theorem between?_linkSexps {word : String} (hword : word = "and" ∨ word = "or")
    (hall : ∀ t ∈ operators, t.text = word) (x : Expr) :
    between? word (x :: readAll (linkSexps es operators)) = some (x :: asDumpedAll es) := by
  induction es generalizing operators x with
  | nil =>
    rw [List.length_nil, eq_comm, List.length_eq_zero_iff] at hlength
    subst hlength
    rfl
  | cons e es ih =>
    cases operators with
    | nil => cases hlength
    | cons operator operators =>
      rw [List.forall_mem_cons] at hread hall
      rw [linkSexps, readAll, readAll, hall.1, Sexp.read, readAtom_word (hword.imp_right .inl), between?, if_pos rfl,
        hread.1, ih (Nat.succ.inj hlength) hread.2 hall.2, Option.map_some, asDumpedAll]

theorem chain_of_links (x : Expr) :
    chain (x :: (links (linkSexps es operators) (readAll (linkSexps es operators))).map (·.2))
        ((links (linkSexps es operators) (readAll (linkSexps es operators))).map (Token.ofText ·.1)) =
      chain (x :: asDumpedAll es) (operators.map Token.bare) := by
  have hsame : (operators.map (·.text)).length = (asDumpedAll es).length := by
    rw [List.length_map, asDumpedAll_eq_map, List.length_map, hlength]
  rw [links_linkSexps hlength hread, List.map_snd_zip hsame.ge]
  congr 1
  rw [show (fun link : String × Expr => Token.ofText link.1) = Token.ofText ∘ Prod.fst from rfl, ← List.map_map,
    List.map_fst_zip hsame.le, List.map_map]
  rfl

end

/-- A chain that starts with `call` where a word comes next reads as the call that looks like it, which is that
chain. -/
theorem callAsDumped_linkSexps {first : Expr} {es : List Expr} {operators : List Token}
    (hjoined : Joined (first :: es) operators) (hread : ∀ e ∈ es, e.sexp.read = e.asDumped)
    (hsymbol : symbolAhead (linkSexps es operators) = false) :
    ∃ root args, readAll (linkSexps es operators) = root :: args ∧
      callAsDumped root args = .chain (.var "call" :: asDumpedAll es) (operators.map Token.bare) := by
  have hlength : es.length = operators.length := Nat.succ.inj hjoined.length_eq
  obtain ⟨operator, later, hoperators⟩ := List.exists_cons_of_ne_nil hjoined.ne_nil
  subst hoperators
  cases es with
  | nil => cases hlength
  | cons e es =>
    obtain ⟨tier, htier, htexts⟩ := hjoined.tier
    have hmem : operator.text ∈ Parser.tiers.flatten :=
      List.mem_flatten.2 ⟨tier, htier, htexts operator List.mem_cons_self⟩
    have hword : operator.text = "and" ∨ operator.text = "or" := by
      rw [linkSexps] at hsymbol
      by_contra hneither
      rw [not_or] at hneither
      exact of_decide_eq_false hsymbol ⟨hmem, hneither.1, hneither.2⟩
    have hall := hjoined.alone hword ⟨operator, List.mem_cons_self, rfl⟩
    rw [List.forall_mem_cons] at hread hall
    refine ⟨.var operator.text, e.asDumped :: readAll (linkSexps es later), ?_, ?_⟩
    · rw [linkSexps, readAll, readAll, Sexp.read, readAtom_word (hword.imp_right .inl), hread.1]
    · have hbetween := between?_linkSexps (Nat.succ.inj hlength) hread.2 hword hall.2 e.asDumped
      have hbare : (operator :: later).map Token.bare =
          List.replicate (e.asDumped :: asDumpedAll es).length (Token.ofText operator.text) := by
        rw [List.eq_replicate_iff, List.forall_mem_map]
        refine ⟨?_, List.forall_mem_cons.2 ⟨rfl, fun t ht => ?_⟩⟩
        · rw [List.length_map, ← hlength, List.length_cons, List.length_cons, asDumpedAll_eq_map, List.length_map]
        · rw [Token.bare, hall.2 t ht]
      rw [callAsDumped, asLinks?, if_pos hword, hbetween, Option.map_some, asDumpedAll, hbare]

theorem read_chain {first : Expr} {es : List Expr} {operators : List Token} (hfirst : first.Readable)
    (hjoined : Joined (first :: es) operators) (hread : first.sexp.read = first.asDumped)
    (hrest : ∀ e ∈ es, e.sexp.read = e.asDumped) :
    (chain (first :: es) operators).sexp.read = (chain (first :: es) operators).asDumped := by
  have hlength : es.length = operators.length := Nat.succ.inj hjoined.length_eq
  rw [sexp, Sexp.read, asDumped, asDumpedAll]
  unfold assemble
  rw [isAtom_sexp_eq_false hfirst "." rfl, isAtom_sexp_eq_false hfirst "[]" rfl,
    isAtom_sexp_not hfirst, isAtom_sexp_eq_false hfirst "-" rfl]
  simp only [Bool.false_eq_true, if_false]
  split
  · next h =>
    obtain ⟨root, args, hitems, hcall⟩ := callAsDumped_linkSexps hjoined hrest h.2
    have hcalls : first.asDumped = .var "call" := by
      cases he : first.sexp with
      | atom text =>
        rw [he, isAtom_atom, decide_eq_true_eq] at h
        rw [← readAtom_of_sexp hfirst he, h.1, readAtom_word (.inr (.inr rfl))]
      | quoted | list =>
        rw [he] at h
        cases h.1
    rw [hitems, hcalls]
    exact hcall
  · rw [hread, chain_of_links hlength hrest]

/-! ## Expressions -/

theorem readAll_sexps {es : List Expr} (h : ∀ e ∈ es, e.sexp.read = e.asDumped) :
    readAll (sexps es) = asDumpedAll es := by
  induction es with
  | nil => rfl
  | cons e es ih =>
    rw [List.forall_mem_cons] at h
    rw [sexps, readAll, asDumpedAll, h.1, ih h.2]

theorem read_call {root : Expr} {args : List Expr} (hroot : root.Readable)
    (hread : root.sexp.read = root.asDumped) (hargs : ∀ e ∈ args, e.sexp.read = e.asDumped) :
    (call root args).sexp.read = (call root args).asDumped := by
  have hhead : (atom "call").isAtom "call" ∧ symbolAhead (root.sexp :: sexps args) = false :=
    ⟨rfl, symbolAhead_sexp hroot _⟩
  rw [sexp, Sexp.read, readAll, asDumped, hread, readAll_sexps hargs]
  unfold assemble
  rw [if_neg (by decide), if_neg (by decide), if_neg (by decide), if_neg (by decide), if_pos hhead]

mutual

/-- What is read from the tree of an expression is the expression as its dump shows it. -/
theorem read_sexp (e : Expr) (h : e.Every Readable) : e.sexp.read = e.asDumped := by
  match e with
  | int _ | float _ | bool _ | null | var _ | system _ | serviceRoot =>
    exact readAtom_of_sexp (h _ List.mem_cons_self) rfl
  | text s => rfl
  | chain operands operators =>
    obtain ⟨hchain, hoperands⟩ := every_chain.1 h
    match operands with
    | [] => exact absurd (Joined.length_eq hchain.1) (by simp)
    | first :: rest =>
      rw [List.forall_mem_cons] at hoperands
      have hfirst : first.Readable := hoperands.1 first (mem_parts_self first)
      exact read_chain hfirst hchain.1 (read_sexp first hoperands.1) (read_sexp_of_mem rest hoperands.2)
  | field root name =>
    obtain ⟨-, hroot⟩ := every_field.1 h
    rw [sexp, Sexp.read, readAll, read_sexp root hroot]
    rfl
  | index root key =>
    obtain ⟨-, hroot, hkey⟩ := every_index.1 h
    rw [sexp, Sexp.read, readAll, readAll, read_sexp root hroot, read_sexp key hkey]
    rfl
  | call root args =>
    obtain ⟨-, hroot, hargs⟩ := every_call.1 h
    exact read_call (hroot root (mem_parts_self root)) (read_sexp root hroot) (read_sexp_of_mem args hargs)
  | not e =>
    obtain ⟨-, he⟩ := every_not.1 h
    rw [sexp, Sexp.read, readAll, read_sexp e he]
    rfl
  | negate e =>
    obtain ⟨-, he⟩ := every_negate.1 h
    rw [sexp, Sexp.read, readAll, read_sexp e he]
    rfl

theorem read_sexp_of_mem (es : List Expr) (h : ∀ e ∈ es, e.Every Readable) :
    ∀ e ∈ es, e.sexp.read = e.asDumped := by
  match es with
  | [] => exact List.forall_mem_nil _
  | e :: rest =>
    rw [List.forall_mem_cons] at h
    exact List.forall_mem_cons.2 ⟨read_sexp e h.1, read_sexp_of_mem rest h.2⟩

end

end Expr

/-! ## Statements -/

namespace Sexp

/-- The name, if the tree is a label. -/
def label? : Sexp → Option String
  | atom text => if text.toList.head? = some '@' then some (String.ofList text.toList.tail) else none
  | _ => none

/-- The statement that a list stands for, if its first item is the word or sign of one. -/
noncomputable def keyword? (first : Sexp) : List Sexp → Option Action
  | [x] =>
    if first.isAtom "goto" then x.label?.map .jump
    else if first.isAtom "print" then some (.print x.read)
    else none
  | [x, y] =>
    if first.isAtom "=" then some (.assign x.read y.read)
    else if first.isAtom "if" then y.label?.map (.branch x.read · none)
    else none
  | [x, y, z] =>
    if first.isAtom "if" then y.label?.bind fun whenTrue => z.label?.map (.branch x.read whenTrue ∘ some)
    else none
  | _ => none

/-- Other words and signs start expressions. -/
theorem keyword?_atom {word : String} (h : word ∉ ["goto", "print", "=", "if"]) (rest : List Sexp) :
    keyword? (atom word) rest = none := by
  simp only [List.mem_cons, List.not_mem_nil, or_false, not_or] at h
  obtain ⟨hgoto, hprint, hassign, hif⟩ := h
  unfold keyword?
  split <;> simp [isAtom_atom, hgoto, hprint, hassign, hif]

theorem label?_labelSexp (name : String) : (Action.labelSexp name).label? = some name := by
  have hlist : ("@" ++ name).toList = '@' :: name.toList := String.toList_append
  rw [Action.labelSexp, label?, hlist, if_pos List.head?_cons, List.tail_cons, String.ofList_toList]

/-- The statement that a tree stands for. -/
noncomputable def readAction (s : Sexp) : Action :=
  match s.label? with
  | some name => .label name
  | none =>
    match s with
    | list (first :: rest) => (keyword? first rest).getD (.evaluate s.read)
    | _ => .evaluate s.read

theorem readAction_of_keyword? {first : Sexp} {rest : List Sexp} {action : Action}
    (h : keyword? first rest = some action) : (list (first :: rest)).readAction = action :=
  congrArg (Option.getD · _) h

end Sexp

namespace Expr

open Sexp

theorem label?_sexp {e : Expr} (h : e.Readable) : e.sexp.label? = none := by
  cases he : e.sexp with
  | atom text => exact if_neg (leafText_of_sexp h he).head_ne
  | quoted | list => rfl

/-- A list of two or more links is too long for a statement, and a single link has a leaf where the statement
has a sign or a label. -/
theorem keyword?_links {first e : Expr} {es : List Expr} {operator : Token} {operators : List Token}
    (hfirst : first.Readable) (he : e.Readable) (hlength : es.length = operators.length) :
    keyword? first.sexp (.atom operator.text :: e.sexp :: linkSexps es operators) = none := by
  cases es with
  | nil =>
    rw [linkSexps, keyword?, isAtom_sexp_eq_false hfirst "=" rfl, label?_sexp he, Option.map_none, ite_self]
    rfl
  | cons next es =>
    cases operators with
    | nil => cases hlength
    | cons => rfl

/-- The tree of an expression is no statement of another kind. -/
theorem keyword?_sexp {e : Expr} (h : e.Every Readable) {first : Sexp} {rest : List Sexp}
    (he : e.sexp = .list (first :: rest)) : keyword? first rest = none := by
  cases e with
  | int | float | text | bool | null | var | system | serviceRoot => cases he
  | chain operands operators =>
    obtain ⟨hchain, hoperands⟩ := every_chain.1 h
    have hjoined : Joined operands operators := hchain.1
    have hreadable : ∀ x ∈ operands, x.Readable := fun x hx => hoperands x hx x (mem_parts_self x)
    obtain ⟨operator, operators, rfl⟩ := List.exists_cons_of_ne_nil hjoined.ne_nil
    match operands, hjoined.length_eq with
    | x :: y :: es, hlength =>
      simp only [List.forall_mem_cons] at hreadable
      rw [sexp, linkSexps] at he
      cases he
      exact keyword?_links hreadable.1 hreadable.2.1 (by simpa using hlength)
  | field | index | call | not | negate =>
    rw [sexp] at he
    cases he
    exact keyword?_atom (by decide) _

theorem readAction_sexp {e : Expr} (h : e.Every Readable) : e.sexp.readAction = .evaluate e.asDumped := by
  have hlabel := label?_sexp (h e (mem_parts_self e))
  rw [← read_sexp e h]
  unfold readAction
  rw [hlabel]
  cases he : e.sexp with
  | atom | quoted => rfl
  | list items =>
    cases items with
    | nil => rfl
    | cons first rest => exact congrArg (Option.getD · _) (keyword?_sexp h he)

end Expr

/-- What is read from the tree of a statement is the statement as its dump shows it. -/
theorem Action.readAction_sexp {action : Action} (h : action.Readable) : action.sexp.readAction = action.asDumped := by
  obtain ⟨hexprs, -⟩ := h
  have hread (e : Expr) (he : e ∈ action.exprs) : e.sexp.read = e.asDumped := e.read_sexp (hexprs e he)
  cases action with
  | label name =>
    unfold Sexp.readAction
    rw [sexp, Sexp.label?_labelSexp]
    rfl
  | branch condition whenTrue whenFalse =>
    have hcondition := hread condition List.mem_cons_self
    cases whenFalse with
    | none =>
      refine Sexp.readAction_of_keyword? ?_
      rw [Sexp.keyword?, Sexp.label?_labelSexp, hcondition]
      rfl
    | some whenFalse =>
      refine Sexp.readAction_of_keyword? ?_
      rw [Sexp.keyword?, Sexp.label?_labelSexp, Sexp.label?_labelSexp, hcondition]
      rfl
  | jump name =>
    refine Sexp.readAction_of_keyword? ?_
    rw [Sexp.keyword?, Sexp.label?_labelSexp]
    rfl
  | print e =>
    refine Sexp.readAction_of_keyword? ?_
    rw [Sexp.keyword?, hread e List.mem_cons_self]
    rfl
  | assign target value =>
    refine Sexp.readAction_of_keyword? ?_
    rw [Sexp.keyword?, hread target List.mem_cons_self, hread value (List.mem_cons_of_mem _ List.mem_cons_self)]
    rfl
  | evaluate e => exact e.readAction_sexp (hexprs e List.mem_cons_self)

/-! ## Programs -/

namespace Program

def Readable (p : Program) : Prop :=
  ∀ s ∈ p.statements, s.action.Readable

theorem clean_sexps {p : Program} (h : p.Readable) : ∀ s ∈ p.sexps, s.Clean := by
  unfold sexps
  rw [List.forall_mem_map]
  exact fun s hs => Action.clean_sexp (h s hs)

/-- A program as its dump shows it is read from its trees. -/
theorem asDumped_eq_of_sexps {p : Program} (h : p.Readable) :
    p.asDumped = ⟨p.sexps.map fun s => ⟨s.readAction, ⟨"", 0, 0⟩⟩⟩ := by
  unfold asDumped sexps
  rw [List.map_map]
  congr 1
  refine List.map_congr_left fun s hs => ?_
  rw [← Action.readAction_sexp (h s hs)]
  rfl

/-- Programs have the same dump exactly if their dumps show the same program. -/
theorem dump_eq_iff_asDumped_eq {p q : Program} (hp : p.Readable) (hq : q.Readable) :
    p.dump = q.dump ↔ p.asDumped = q.asDumped := by
  constructor
  · intro h
    have hsexps := sexps_of_dump_eq (clean_sexps hp) (clean_sexps hq) h
    rw [asDumped_eq_of_sexps hp, asDumped_eq_of_sexps hq, hsexps]
  · intro h
    refine dump_eq_of_sexps_eq ?_
    rw [← sexps_asDumped p, ← sexps_asDumped q, h]

end Program

end GotoScript
