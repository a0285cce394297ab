import GotoScript.Program.Literal

/-!
# Parsing

Statements are separated by line ends. Expressions are built from six tiers of operators, each
binding tighter than the one before; a tier's operators make one flat chain. The parser reads a list
of tokens and says in its result what is left of them, after a failure as well, so that reading can
go on from there.
-/

namespace GotoScript

/-- The outcome of reading from `tokens`: a value or an error, and the tokens that are left. -/
structure Parsed (α : Type) (tokens : List Token) where
  result : Except CompileError α
  rest : List Token
  rest_le : rest.length ≤ tokens.length

namespace Parsed

variable {α β : Type} {tokens : List Token}

def ok (value : α) (rest : List Token) (h : rest.length ≤ tokens.length) : Parsed α tokens :=
  ⟨.ok value, rest, h⟩

def fail (e : CompileError) (rest : List Token) (h : rest.length ≤ tokens.length) :
    Parsed α tokens :=
  ⟨.error e, rest, h⟩

/-- Reads on from what is left, unless there was an error. -/
def andThen (p : Parsed α tokens)
    (next : α → (rest : List Token) → rest.length ≤ tokens.length → Parsed β rest) :
    Parsed β tokens :=
  match p.result with
  | .error e => ⟨.error e, p.rest, p.rest_le⟩
  | .ok a =>
    let q := next a p.rest p.rest_le
    ⟨q.result, q.rest, Nat.le_trans q.rest_le p.rest_le⟩

def map (f : α → β) (p : Parsed α tokens) : Parsed β tokens :=
  ⟨p.result.map f, p.rest, p.rest_le⟩

/-- The same outcome, seen from an earlier place. -/
def within {earlier : List Token} (p : Parsed α tokens) (h : tokens.length ≤ earlier.length) :
    Parsed α earlier :=
  ⟨p.result, p.rest, Nat.le_trans p.rest_le h⟩

/-- The same outcome, seen from the token before. -/
def after {t : Token} (p : Parsed α tokens) : Parsed α (t :: tokens) :=
  p.within (Nat.le_succ _)

end Parsed

namespace Parser

/-- The operators by precedence, those that bind least first. -/
def tiers : List (List String) :=
  [["and"], ["or"], ["==", "!="], ["<=", ">=", "<", ">"], ["+", "-"], ["*", "/", "%"]]

variable (file : String)

/-! ## Single tokens -/

/-- Takes the next token if its text is `text`; another token stays in place. -/
def expect (text : String) (tokens : List Token) : Parsed Token tokens :=
  match CompileError.requireText file text tokens.head? with
  | .ok token => .ok token tokens.tail (by simp)
  | .error e => .fail e tokens (Nat.le_refl _)

/-- Takes the next token, which should be a word. -/
def word (tokens : List Token) : Parsed Token tokens :=
  ⟨CompileError.requireWord file tokens.head?, tokens.tail, by simp⟩

/-- Reads `@name`. -/
def labelName (tokens : List Token) : Parsed String tokens :=
  (expect file "@" tokens).andThen fun _ rest _ => (word file rest).map (·.text)

/-! ## Entities -/

/-- The float whose digits after the point come next, or nothing. -/
def decimals (whole : String) : List Token → Option (Expr × List Token)
  | t :: rest => if Literal.isDigits t.text then some (Literal.float whole t.text, rest) else none
  | [] => none

theorem decimals_rest_le {whole : String} {tokens rest : List Token} {e : Expr}
    (h : decimals whole tokens = some (e, rest)) : rest.length ≤ tokens.length := by
  cases tokens with
  | nil => simp [decimals] at h
  | cons t ts =>
    simp only [decimals] at h
    split at h <;> simp_all

/-- A number that starts with the digits of `t`. With a point after them, more digits have to
follow. -/
def number (t : Token) : (tokens : List Token) → Parsed Expr tokens
  | [] => ⟨Literal.int t, [], Nat.le_refl _⟩
  | dot :: rest =>
    if dot.text = "." then
      match _h : decimals t.text rest with
      | some (e, left) => .ok e left (Nat.le_succ_of_le (decimals_rest_le _h))
      | none =>
        .fail (.atToken .unexpectedToken "unexpected '.'" dot) rest (Nat.le_succ _)
    else ⟨Literal.int t, dot :: rest, Nat.le_refl _⟩

/-- A literal, a variable, a system function, or the service root. -/
def entity : (tokens : List Token) → Parsed Expr tokens
  | [] => .fail (.endOfFile file "expected an expression") [] (Nat.le_refl _)
  | t :: rest =>
    if t.text = "true" ∨ t.text = "false" then .ok (.bool (t.text = "true")) rest (Nat.le_succ _)
    else if t.text = "null" then .ok .null rest (Nat.le_succ _)
    else if t.text = "$" then ((word file rest).map fun name => Expr.system name.text).after
    else if t.firstChar? = some '"' ∨ t.firstChar? = some '\'' then
      ⟨(Literal.text t).map .text, rest, Nat.le_succ _⟩
    else if t.isWord then
      .ok (if t.text = Expr.rootWord then .serviceRoot else .var t.text) rest (Nat.le_succ _)
    else if Literal.isDigits t.text then (number t rest).after
    else if t.text = "." then
      match _h : decimals "0" rest with
      | some (e, left) => .ok e left (Nat.le_succ_of_le (decimals_rest_le _h))
      | none => .fail (.unexpected t) rest (Nat.le_succ _)
    else .fail (.unexpected t) (t :: rest) (Nat.le_refl _)

/-! ## Expressions -/

/-- A first operand and what follows it: the operand alone, or a chain. -/
def chainOf (first : Expr) (more : List (Token × Expr)) : Expr :=
  if more.isEmpty then first else .chain (first :: more.map (·.2)) (more.map (·.1))

mutual

/-- An expression whose operators come from the given tiers. -/
def chain (tiers : List (List String)) (tokens : List Token) : Parsed Expr tokens :=
  match tiers with
  | [] => unary tokens
  | operators :: tighter =>
    (chain tighter tokens).andThen fun first rest _ =>
      (chainRest operators tighter rest).map (chainOf first)
termination_by 20 * tokens.length + tiers.length + 3
decreasing_by all_goals simp <;> omega

/-- The operators of one tier that follow an operand, each with the operand after it. -/
def chainRest (operators : List String) (tighter : List (List String)) (tokens : List Token) :
    Parsed (List (Token × Expr)) tokens :=
  match tokens with
  | [] => .ok [] [] (Nat.le_refl _)
  | t :: rest =>
    if t.text ∈ operators then
      ((chain tighter rest).andThen fun e rest _ =>
        (chainRest operators tighter rest).map ((t, e) :: ·)).after
    else .ok [] (t :: rest) (Nat.le_refl _)
termination_by 20 * tokens.length + tighter.length + 3
decreasing_by all_goals simp <;> omega

def unary (tokens : List Token) : Parsed Expr tokens :=
  match tokens with
  | [] => suffixed []
  | t :: rest =>
    if t.text = "not" then ((unary rest).map Expr.not).after
    else if t.text = "-" then ((unary rest).map Expr.negate).after
    else suffixed (t :: rest)
termination_by 20 * tokens.length + 2
decreasing_by all_goals simp

/-- An expression in parentheses or an entity, with what is applied to it. -/
def suffixed (tokens : List Token) : Parsed Expr tokens :=
  (primary tokens).andThen fun e rest _ => suffixes e rest
termination_by 20 * tokens.length + 1
decreasing_by all_goals omega

def primary (tokens : List Token) : Parsed Expr tokens :=
  match tokens with
  | [] => entity file []
  | t :: rest =>
    if t.text = "(" then
      ((chain tiers rest).andThen fun e rest _ => (expect file ")" rest).map fun _ => e).after
    else entity file (t :: rest)
termination_by 20 * tokens.length
decreasing_by all_goals (simp [tiers]; omega)

/-- The fields, keys and arguments that follow `root`. -/
def suffixes (root : Expr) (tokens : List Token) : Parsed Expr tokens :=
  match tokens with
  | [] => .ok root [] (Nat.le_refl _)
  | t :: rest =>
    if t.text = "." then
      ((word file rest).andThen fun name rest _ => suffixes (.field root name.text) rest).after
    else if t.text = "[" then
      ((chain tiers rest).andThen fun key rest _ =>
        (expect file "]" rest).andThen fun _ rest _ => suffixes (.index root key) rest).after
    else if t.text = "(" then
      ((arguments rest).andThen fun args rest _ => suffixes (.call root args) rest).after
    else .ok root (t :: rest) (Nat.le_refl _)
termination_by 20 * tokens.length
decreasing_by all_goals (simp [tiers]; omega)

/-- What stands in a call's parentheses, the closing one included. -/
def arguments (tokens : List Token) : Parsed (List Expr) tokens :=
  if tokens.head?.map (·.text) = some ")" then .ok [] tokens.tail (by simp)
  else (chain tiers tokens).andThen fun e rest _ => (moreArguments rest).map (e :: ·)
termination_by 20 * tokens.length + 10
decreasing_by
  · simp [tiers]
  · omega

/-- The arguments after the first, each with a comma before it. -/
def moreArguments (tokens : List Token) : Parsed (List Expr) tokens :=
  match tokens with
  | [] => (expect file "," []).map fun _ => []
  | t :: rest =>
    if t.text = ")" then .ok [] rest (Nat.le_succ _)
    else if t.text = "," then
      ((chain tiers rest).andThen fun e rest _ => (moreArguments rest).map (e :: ·)).after
    else (expect file "," (t :: rest)).map fun _ => []
termination_by 20 * tokens.length
decreasing_by all_goals (simp [tiers]; omega)

end

def expression (tokens : List Token) : Parsed Expr tokens :=
  chain file tiers tokens

/-! ## Statements -/

/-- Passes over the next token if its text is `text`. -/
def skip (text : String) : List Token → List Token
  | [] => []
  | t :: rest => if t.text = text then rest else t :: rest

theorem skip_length_le (text : String) (tokens : List Token) :
    (skip text tokens).length ≤ tokens.length := by
  cases tokens with
  | nil => simp [skip]
  | cons t rest => simp only [skip]; split <;> simp

/-- Reads `else @name` or `else goto @name`, if it follows. -/
def otherwise : (tokens : List Token) → Parsed (Option String) tokens
  | [] => .ok none [] (Nat.le_refl _)
  | t :: rest =>
    if t.text = "else" then
      ((labelName file (skip "goto" rest)).map some).within
        (Nat.le_succ_of_le (skip_length_le "goto" rest))
    else .ok none (t :: rest) (Nat.le_refl _)

/-- Reads what follows the word `if`: a condition, a label to go to, and perhaps another one. -/
def branch (tokens : List Token) : Parsed Action tokens :=
  (expression file tokens).andThen fun condition rest _ =>
    (expect file "goto" rest).andThen fun _ rest _ =>
      (labelName file rest).andThen fun whenTrue rest _ =>
        (otherwise file rest).map (.branch condition whenTrue)

/-- Reads an expression and, after an equals sign, the value assigned to it. -/
def assignment (start : Token) (tokens : List Token) : Parsed Action tokens :=
  (expression file tokens).andThen fun target rest _ =>
    match rest with
    | [] => .ok (.evaluate target) [] (Nat.le_refl _)
    | t :: rest =>
      if t.text = "=" then
        match target with
        | .var name => ((expression file rest).map (.assign (.var name))).after
        | _ =>
          .fail (.atToken .unsupportedAssignmentTarget "only variables may be assigned to" start)
            rest (Nat.le_succ _)
      else .ok (.evaluate target) (t :: rest) (Nat.le_refl _)

def action (start : Token) (rest : List Token) : Parsed Action (start :: rest) :=
  if start.text = "@" then (labelName file (start :: rest)).map .label
  else if start.text = "if" then (branch file rest).after
  else if start.text = "goto" then ((labelName file rest).map .jump).after
  else if start.text = "print" then ((expression file rest).map .print).after
  else assignment file start (start :: rest)

def statement : (tokens : List Token) → Parsed Statement tokens
  | [] => .fail (.endOfFile file "expected a statement") [] (Nat.le_refl _)
  | start :: rest => (action file start rest).map (⟨·, start.position⟩)

/-! ## Programs -/

def dropNewlines (tokens : List Token) : List Token :=
  tokens.dropWhile (·.isNewline)

theorem dropNewlines_length_le (tokens : List Token) :
    (dropNewlines tokens).length ≤ tokens.length :=
  (List.dropWhile_sublist _).length_le

/-- Reads statements to the end, starting with one. Between two of them there is a line end. -/
def statements (tokens : List Token) : Parsed (List Statement) tokens :=
  match tokens with
  | [] => .ok [] [] (Nat.le_refl _)
  | start :: later =>
    (statement file (start :: later)).andThen fun s rest _ =>
      match rest with
      | [] => .ok [s] [] (Nat.le_refl _)
      | t :: rest =>
        if t.isNewline then
          ((statements (dropNewlines rest)).map (s :: ·)).within
            (Nat.le_succ_of_le (dropNewlines_length_le rest))
        else .fail (.unexpected t) (t :: rest) (Nat.le_refl _)
termination_by tokens.length
decreasing_by
  have := dropNewlines_length_le rest
  simp only [List.length_cons] at *
  omega

/-- Reads a whole program; blank lines may stand anywhere. -/
def program (tokens : List Token) : Except CompileError Program :=
  (statements file (dropNewlines tokens)).result.map Program.mk

end Parser

end GotoScript
