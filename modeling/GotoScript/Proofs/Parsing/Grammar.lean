import GotoScript.Program.Parser

/-!
# The grammar of programs

What token sequences are programs, said without a parser. A derivation accounts for a whole sequence:
every relation below takes a list of tokens and the tree that it stands for.

* `Entity` : literals, variables, system functions and the service root;
* `Chain tiers` : expressions whose operators outside parentheses come from `tiers`, with `Links` for
  the operators of one tier and the operands after them; `Unary`, `Suffixed`, `Suffixes`, `Arguments`,
  `MoreArguments` below it;
* `Line` : what one statement says; `Lines` : statements with line ends between them;
* `Derives` : whole programs.

Words are never keywords here: `and`, `or`, `goto`, `else`, `print` and `if` are variables wherever an
operand stands. Only `not` is no variable.
-/

namespace GotoScript

/-- The next token, if there is one, has none of these texts. -/
def NoneAhead (texts : List String) (tokens : List Token) : Prop :=
  ∀ t ∈ tokens.head?, t.text ∉ texts

namespace Grammar

/-! ## Entities -/

/-- A text literal starts with one of the two quotes. -/
def IsQuoted (t : Token) : Prop :=
  t.firstChar? = some '"' ∨ t.firstChar? = some '\''

/-- The words that are no variables. -/
def reserved : List String := ["true", "false", "null", "not", Expr.rootWord]

inductive Entity : List Token → Expr → Prop where
  | bool {t : Token} (h : t.text = "true" ∨ t.text = "false") : Entity [t] (.bool (t.text = "true"))
  | null {t : Token} (h : t.text = "null") : Entity [t] .null
  | system {sign name : Token} (h : sign.text = "$") (hname : name.isWord) :
    Entity [sign, name] (.system name.text)
  | text {t : Token} {value : String} (h : IsQuoted t) (hvalue : Literal.text t = .ok value) :
    Entity [t] (.text value)
  | serviceRoot {t : Token} (h : t.text = Expr.rootWord) : Entity [t] .serviceRoot
  | var {t : Token} (h : t.isWord) (hfree : t.text ∉ reserved) : Entity [t] (.var t.text)
  | int {t : Token} {e : Expr} (h : Literal.isDigits t.text) (hvalue : Literal.int t = .ok e) :
    Entity [t] e
  | float {whole point decimals : Token} (hw : Literal.isDigits whole.text) (hp : point.text = ".")
    (hd : Literal.isDigits decimals.text) :
    Entity [whole, point, decimals] (Literal.float whole.text decimals.text)
  | fraction {point decimals : Token} (hp : point.text = ".") (hd : Literal.isDigits decimals.text) :
    Entity [point, decimals] (Literal.float "0" decimals.text)

/-- The sequence is a single number without a point. -/
def IsWhole (tokens : List Token) : Prop :=
  ∃ t, tokens = [t] ∧ Literal.isDigits t.text

/-! ## Expressions -/

/-- The texts that something applied to an expression starts with. -/
def openers : List String := [".", "[", "("]

mutual

/-- Expressions with operators of the given tiers, those that bind least first. A tier without
operators leaves no node. -/
inductive Chain : List (List String) → List Token → Expr → Prop where
  | unary {ts : List Token} {e : Expr} (h : Unary ts e) : Chain [] ts e
  | single {operators : List String} {tighter : List (List String)} {ts : List Token} {e : Expr}
    (h : Chain tighter ts e) : Chain (operators :: tighter) ts e
  | joined {operators : List String} {tighter : List (List String)} {ts ls : List Token}
    {first : Expr} {more : List (Token × Expr)} (h : Chain tighter ts first)
    (hl : Links operators tighter ls more) (hne : more ≠ []) :
    Chain (operators :: tighter) (ts ++ ls) (.chain (first :: more.map (·.2)) (more.map (·.1)))

/-- Operators of one tier, each with the operand after it. -/
inductive Links : List String → List (List String) → List Token → List (Token × Expr) → Prop where
  | nil {operators : List String} {tighter : List (List String)} : Links operators tighter [] []
  | cons {operators : List String} {tighter : List (List String)} {op : Token} {ts ls : List Token}
    {e : Expr} {more : List (Token × Expr)} (hop : op.text ∈ operators) (h : Chain tighter ts e)
    (hl : Links operators tighter ls more) :
    Links operators tighter (op :: ts ++ ls) ((op, e) :: more)

inductive Unary : List Token → Expr → Prop where
  | not {t : Token} {ts : List Token} {e : Expr} (ht : t.text = "not") (h : Unary ts e) :
    Unary (t :: ts) (.not e)
  | negate {t : Token} {ts : List Token} {e : Expr} (ht : t.text = "-") (h : Unary ts e) :
    Unary (t :: ts) (.negate e)
  | suffixed {ts : List Token} {e : Expr} (h : Suffixed ts e) : Unary ts e

/-- An entity, or an expression in parentheses, and what is applied to it. After a number without a
point there is no field: a point there makes it a float. -/
inductive Suffixed : List Token → Expr → Prop where
  | entity {ts ss : List Token} {root e : Expr} (h : Entity ts root)
    (hw : IsWhole ts → NoneAhead ["."] ss) (hs : Suffixes root ss e) : Suffixed (ts ++ ss) e
  | group {l r : Token} {ts ss : List Token} {root e : Expr} (hl : l.text = "(")
    (h : Chain Parser.tiers ts root) (hr : r.text = ")") (hs : Suffixes root ss e) :
    Suffixed (l :: ts ++ r :: ss) e

/-- Fields, keys and arguments, applied to `root` from the left. -/
inductive Suffixes : Expr → List Token → Expr → Prop where
  | nil {root : Expr} : Suffixes root [] root
  | field {point name : Token} {ss : List Token} {root e : Expr} (hp : point.text = ".")
    (hn : name.isWord) (hs : Suffixes (.field root name.text) ss e) :
    Suffixes root (point :: name :: ss) e
  | index {l r : Token} {ts ss : List Token} {root key e : Expr} (hl : l.text = "[")
    (h : Chain Parser.tiers ts key) (hr : r.text = "]") (hs : Suffixes (.index root key) ss e) :
    Suffixes root (l :: ts ++ r :: ss) e
  | call {l r : Token} {ts ss : List Token} {root e : Expr} {args : List Expr} (hl : l.text = "(")
    (h : Arguments ts args) (hr : r.text = ")") (hs : Suffixes (.call root args) ss e) :
    Suffixes root (l :: ts ++ r :: ss) e

inductive Arguments : List Token → List Expr → Prop where
  | nil : Arguments [] []
  | cons {ts ls : List Token} {e : Expr} {es : List Expr} (h : Chain Parser.tiers ts e)
    (hl : MoreArguments ls es) : Arguments (ts ++ ls) (e :: es)

/-- The arguments after the first, each with a comma before it. -/
inductive MoreArguments : List Token → List Expr → Prop where
  | nil : MoreArguments [] []
  | cons {comma : Token} {ts ls : List Token} {e : Expr} {es : List Expr} (hc : comma.text = ",")
    (h : Chain Parser.tiers ts e) (hl : MoreArguments ls es) :
    MoreArguments (comma :: ts ++ ls) (e :: es)

end

/-- An expression, with the operators of all tiers. -/
abbrev Expression (tokens : List Token) (e : Expr) : Prop :=
  Chain Parser.tiers tokens e

/-! ## Statements -/

/-- `@name`. -/
inductive Label : List Token → String → Prop where
  | mk {sign name : Token} (hs : sign.text = "@") (hn : name.isWord) : Label [sign, name] name.text

/-- The second label of a branch, if it has one. The word `goto` may be left out before it. -/
inductive Otherwise : List Token → Option String → Prop where
  | absent : Otherwise [] none
  | label {word : Token} {ts : List Token} {name : String} (hw : word.text = "else")
    (h : Label ts name) : Otherwise (word :: ts) (some name)
  | gotoLabel {word goto : Token} {ts : List Token} {name : String} (hw : word.text = "else")
    (hg : goto.text = "goto") (h : Label ts name) : Otherwise (word :: goto :: ts) (some name)

/-- The texts that say what kind of statement they start. -/
def starters : List String := ["@", "if", "goto", "print"]

/-- What a statement says. Only a sequence that starts with none of the starters is an assignment or
an expression. -/
inductive Line : List Token → Action → Prop where
  | label {ts : List Token} {name : String} (h : Label ts name) : Line ts (.label name)
  | branch {word goto : Token} {cs ts os : List Token} {condition : Expr} {whenTrue : String}
    {whenFalse : Option String} (hw : word.text = "if") (hc : Expression cs condition)
    (hg : goto.text = "goto") (ht : Label ts whenTrue) (ho : Otherwise os whenFalse) :
    Line (word :: cs ++ goto :: ts ++ os) (.branch condition whenTrue whenFalse)
  | jump {word : Token} {ts : List Token} {name : String} (hw : word.text = "goto")
    (h : Label ts name) : Line (word :: ts) (.jump name)
  | print {word : Token} {ts : List Token} {e : Expr} (hw : word.text = "print")
    (h : Expression ts e) : Line (word :: ts) (.print e)
  | assign {sign : Token} {vs ts : List Token} {name : String} {e : Expr}
    (hf : NoneAhead starters vs) (hv : Expression vs (.var name)) (hs : sign.text = "=")
    (h : Expression ts e) : Line (vs ++ sign :: ts) (.assign (.var name) e)
  | evaluate {ts : List Token} {e : Expr} (hf : NoneAhead starters ts) (h : Expression ts e) :
    Line ts (.evaluate e)

/-- A statement stands where its first token stands. -/
inductive Sentence : List Token → Statement → Prop where
  | mk {start : Token} {ts : List Token} {action : Action} (h : Line (start :: ts) action) :
    Sentence (start :: ts) ⟨action, start.position⟩

/-! ## Programs -/

/-- Statements with one or more line ends between them, and any number after the last. -/
inductive Lines : List Token → List Statement → Prop where
  | last {ts ns : List Token} {s : Statement} (h : Sentence ts s) (hn : ∀ t ∈ ns, t.isNewline) :
    Lines (ts ++ ns) [s]
  | cons {ts ns ls : List Token} {s : Statement} {more : List Statement} (h : Sentence ts s)
    (hn : ∀ t ∈ ns, t.isNewline) (hne : ns ≠ []) (hl : Lines ls more) :
    Lines (ts ++ ns ++ ls) (s :: more)

/-- Whole programs: blank lines, and the statements if there are any. -/
inductive Derives : List Token → Program → Prop where
  | blank {ns : List Token} (hn : ∀ t ∈ ns, t.isNewline) : Derives ns ⟨[]⟩
  | lines {ns ls : List Token} {statements : List Statement} (hn : ∀ t ∈ ns, t.isNewline)
    (h : Lines ls statements) : Derives (ns ++ ls) ⟨statements⟩

end Grammar

end GotoScript
