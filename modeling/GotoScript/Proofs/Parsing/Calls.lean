import GotoScript.Proofs.Parsing.Progress

/-!
# What the parser calls

The procedures of the parser call each other, and a loop goes on by calling itself. Here each procedure is taken
apart: what it does by itself, and what it asks of others.

* `Call` : the calls of the parser; `Call.outcome` : what each of them reads;
* `Asking`, `Call.body` : a procedure with questions in place of its calls;
* `Call.run_body` : with its questions answered by the parser, the body of a call reads what the call reads;
* `Call.callees` : what a call calls, which is what its body asks.
-/

namespace GotoScript

namespace Parser

/-- A call of one of the parser's procedures, or one round of one of its loops. -/
inductive Call where
  /-- An expression of the given tiers; an expression of all of them is `Parser.expression`. -/
  | tier (tiers : List (List String)) (tokens : List Token)
  /-- A round of the operator loop of one tier. -/
  | operators (operators : List String) (tighter : List (List String)) (tokens : List Token)
  | unary (tokens : List Token)
  | suffixed (tokens : List Token)
  | primary (tokens : List Token)
  | entity (tokens : List Token)
  /-- A round of the suffix loop. -/
  | suffixes (root : Expr) (tokens : List Token)
  /-- The argument loop, before the first argument. -/
  | arguments (tokens : List Token)
  /-- A later round of the argument loop. -/
  | moreArguments (tokens : List Token)
  | statement (tokens : List Token)
  /-- A round of the loop that passes over line ends. -/
  | newlines (tokens : List Token)
  /-- A round of the statement loop. -/
  | statements (tokens : List Token)
  | program (tokens : List Token)

inductive Loop where
  | operators
  | suffixes
  | arguments
  | newlines
  | statements
deriving DecidableEq

end Parser

namespace Parser.Call

/-- The tokens that the call starts with. -/
def tokens : Call → List Token
  | tier _ ts | operators _ _ ts | unary ts | suffixed ts | primary ts | entity ts | suffixes _ ts
  | arguments ts | moreArguments ts | statement ts | newlines ts | statements ts | program ts => ts

/-- The loop that the call is a round of. -/
def loop? : Call → Option Loop
  | operators .. => some .operators
  | suffixes .. => some .suffixes
  | arguments _ | moreArguments _ => some .arguments
  | newlines _ => some .newlines
  | statements _ => some .statements
  | _ => none

end Parser.Call

/-! ## Bodies -/

/-- A value or an error, and the tokens that are left. -/
structure Reading (α : Type) where
  result : Except CompileError α
  rest : List Token

def Reading.map {α β : Type} (f : α → β) (r : Reading α) : Reading β :=
  ⟨r.result.map f, r.rest⟩

/-- What was read, wherever it was read from. -/
def Parsed.reading {α : Type} {ts : List Token} (p : Parsed α ts) : Reading α :=
  ⟨p.result, p.rest⟩

namespace Parser

/-- The kind of value that a call reads. -/
@[reducible]
def Call.Value : Call → Type
  | tier .. | unary _ | suffixed _ | primary _ | entity _ | suffixes .. => Expr
  | operators .. => List (Token × Expr)
  | arguments _ | moreArguments _ => List Expr
  | statement _ => Statement
  | newlines _ => Unit
  | statements _ => List Statement
  | program _ => Program

/-- What a call reads. -/
def Call.outcome (file : String) : (c : Call) → Reading c.Value
  | tier tiers ts => (Parser.chain file tiers ts).reading
  | operators ops tighter ts => (Parser.chainRest file ops tighter ts).reading
  | unary ts => (Parser.unary file ts).reading
  | suffixed ts => (Parser.suffixed file ts).reading
  | primary ts => (Parser.primary file ts).reading
  | entity ts => (Parser.entity file ts).reading
  | suffixes root ts => (Parser.suffixes file root ts).reading
  | arguments ts => (Parser.arguments file ts).reading
  | moreArguments ts => (Parser.moreArguments file ts).reading
  | statement ts => (Parser.statement file ts).reading
  | newlines ts => ⟨.ok (), dropNewlines ts⟩
  | statements ts => (Parser.statements file ts).reading
  | program ts => ⟨Parser.program file ts, (Parser.statements file (dropNewlines ts)).rest⟩

/-- A computation that may ask what calls read. -/
inductive Asking (α : Type) where
  | done (a : α)
  | ask (c : Call) (next : Reading c.Value → Asking α)

namespace Asking

variable {α β : Type}

def map (f : α → β) : Asking α → Asking β
  | done a => done (f a)
  | ask c next => ask c fun r => (next r).map f

variable (answer : (c : Call) → Reading c.Value)

/-- The result, if the questions are answered so. -/
def run : Asking α → α
  | done a => a
  | ask c next => (next (answer c)).run

/-- The questions, if they are answered so. -/
def asked : Asking α → List Call
  | done _ => []
  | ask c next => c :: (next (answer c)).asked

theorem asked_ask_done (c : Call) (f : Reading c.Value → α) : (ask c fun r => done (f r)).asked answer = [c] :=
  rfl

theorem run_map (f : α → β) (m : Asking α) : (m.map f).run answer = f (m.run answer) := by
  induction m with
  | done a => rfl
  | ask c next ih => exact ih (answer c)

theorem asked_map (f : α → β) (m : Asking α) : (m.map f).asked answer = m.asked answer := by
  induction m with
  | done a => rfl
  | ask c next ih => exact congrArg (c :: ·) (ih (answer c))

end Asking

end Parser

namespace Reading

open GotoScript.Parser

variable {α β : Type}

/-- Goes on from what is left, unless there was an error. -/
def andAsk (r : Reading α) (next : α → List Token → Asking (Reading β)) : Asking (Reading β) :=
  match r.result with
  | .ok a => next a r.rest
  | .error e => .done ⟨.error e, r.rest⟩

variable {ts : List Token} {p : Parsed α ts} {next : α → List Token → Asking (Reading β)}
  {answer : (c : Parser.Call) → Reading c.Value}

theorem run_andAsk {later : α → (rest : List Token) → rest.length ≤ ts.length → Parsed β rest}
    (h : ∀ a rest hle, (next a rest).run answer = (later a rest hle).reading) :
    (p.reading.andAsk next).run answer = (p.andThen later).reading := by
  obtain ⟨result, rest, hle⟩ := p
  cases result with
  | ok a => exact h a rest hle
  | error e => rfl

end Reading

namespace Parser.Call

open Asking

variable (file : String)

/-- The part of a statement that says what it does. -/
def actionBody (start : Token) (ts : List Token) : Asking (Reading Action) :=
  if start.text = "@" then done ((labelName file (start :: ts)).map Action.label).reading
  else if start.text = "if" then
    ask (tier tiers ts) fun r => r.andAsk fun condition left =>
      done ((expect file "goto" left).andThen fun _ left _ =>
        (labelName file left).andThen fun whenTrue left _ =>
          (otherwise file left).map (Action.branch condition whenTrue)).reading
  else if start.text = "goto" then done ((labelName file ts).map Action.jump).reading
  else if start.text = "print" then ask (tier tiers ts) fun r => done (r.map Action.print)
  else
    ask (tier tiers (start :: ts)) fun r => r.andAsk fun target left =>
      match left with
      | [] => done ⟨.ok (.evaluate target), []⟩
      | t :: left =>
        if t.text = "=" then
          match target with
          | .var name => ask (tier tiers left) fun r => done (r.map (Action.assign (.var name)))
          | _ =>
            done ⟨.error (.atToken .unsupportedAssignmentTarget "only variables may be assigned to" start), left⟩
        else done ⟨.ok (.evaluate target), t :: left⟩

/-- What a call does, with questions in place of the calls that it makes. -/
@[simp]
def body : (c : Call) → Asking (Reading c.Value)
  | tier [] ts => ask (unary ts) done
  | tier (ops :: tighter) ts =>
    ask (tier tighter ts) fun r => r.andAsk fun first left =>
      ask (operators ops tighter left) fun r => done (r.map (chainOf first))
  | operators _ _ [] => done ⟨.ok [], []⟩
  | operators ops tighter (t :: ts) =>
    if t.text ∈ ops then
      ask (tier tighter ts) fun r => r.andAsk fun e left =>
        ask (operators ops tighter left) fun r => done (r.map ((t, e) :: ·))
    else done ⟨.ok [], t :: ts⟩
  | unary [] => ask (suffixed []) done
  | unary (t :: ts) =>
    if t.text = "not" then ask (unary ts) fun r => done (r.map Expr.not)
    else if t.text = "-" then ask (unary ts) fun r => done (r.map Expr.negate)
    else ask (suffixed (t :: ts)) done
  | suffixed ts => ask (primary ts) fun r => r.andAsk fun root left => ask (suffixes root left) done
  | primary [] => ask (entity []) done
  | primary (t :: ts) =>
    if t.text = "(" then
      ask (tier tiers ts) fun r => r.andAsk fun e left =>
        done ((expect file ")" left).map fun _ => e).reading
    else ask (entity (t :: ts)) done
  | entity ts => done (Parser.entity file ts).reading
  | suffixes root [] => done ⟨.ok root, []⟩
  | suffixes root (t :: ts) =>
    if t.text = "." then
      (word file ts).reading.andAsk fun name left => ask (suffixes (.field root name.text) left) done
    else if t.text = "[" then
      ask (tier tiers ts) fun r => r.andAsk fun key left =>
        (expect file "]" left).reading.andAsk fun _ left => ask (suffixes (.index root key) left) done
    else if t.text = "(" then
      ask (arguments ts) fun r => r.andAsk fun args left => ask (suffixes (.call root args) left) done
    else done ⟨.ok root, t :: ts⟩
  | arguments ts =>
    if ts.head?.map (·.text) = some ")" then done ⟨.ok [], ts.tail⟩
    else
      ask (tier tiers ts) fun r => r.andAsk fun e left =>
        ask (moreArguments left) fun r => done (r.map (e :: ·))
  | moreArguments [] => done ((expect file "," []).map fun _ => []).reading
  | moreArguments (t :: ts) =>
    if t.text = ")" then done ⟨.ok [], ts⟩
    else if t.text = "," then
      ask (tier tiers ts) fun r => r.andAsk fun e left =>
        ask (moreArguments left) fun r => done (r.map (e :: ·))
    else done ((expect file "," (t :: ts)).map fun _ => []).reading
  | statement [] => done ⟨.error (.endOfFile file "expected a statement"), []⟩
  | statement (start :: ts) => (actionBody file start ts).map (Reading.map (⟨·, start.position⟩))
  | newlines [] => done ⟨.ok (), []⟩
  | newlines (t :: ts) => if t.isNewline then ask (newlines ts) done else done ⟨.ok (), t :: ts⟩
  | statements [] => done ⟨.ok [], []⟩
  | statements (start :: ts) =>
    ask (statement (start :: ts)) fun r => r.andAsk fun s left =>
      match left with
      | [] => done ⟨.ok [s], []⟩
      | t :: left =>
        if t.isNewline then
          ask (newlines left) fun blank => ask (statements blank.rest) fun r => done (r.map (s :: ·))
        else done ⟨.error (.unexpected t), t :: left⟩
  | program ts =>
    ask (newlines ts) fun blank => ask (statements blank.rest) fun r => done (r.map Program.mk)

/-! ## Bodies and the parser -/

theorem run_actionBody (start : Token) (ts : List Token) :
    (actionBody file start ts).run (outcome file) = (action file start ts).reading := by
  unfold actionBody action
  split
  · rfl
  split
  · exact Reading.run_andAsk fun condition left hle => rfl
  split
  · rfl
  split
  · rfl
  · refine Reading.run_andAsk fun target left hle => ?_
    cases left with
    | nil => rfl
    | cons t left =>
      dsimp only
      split
      · cases target <;> rfl
      · rfl

/-- The body of a call reads what the call reads, if its questions are answered by the parser. -/
theorem run_body (c : Call) : (c.body file).run (outcome file) = c.outcome file := by
  cases c with
  | tier tiers ts =>
    cases tiers with
    | nil =>
      rw [outcome, chain]
      rfl
    | cons ops tighter =>
      rw [outcome, chain]
      exact Reading.run_andAsk fun first left hle => rfl
  | operators ops tighter ts =>
    cases ts with
    | nil =>
      rw [outcome, chainRest]
      rfl
    | cons t ts =>
      rw [outcome, chainRest, body]
      split
      · exact Reading.run_andAsk fun e left hle => rfl
      · rfl
  | unary ts =>
    cases ts with
    | nil =>
      rw [outcome, Parser.unary]
      rfl
    | cons t ts =>
      rw [outcome, Parser.unary, body]
      split
      · rfl
      split
      · rfl
      · rfl
  | suffixed ts =>
    rw [outcome, Parser.suffixed]
    exact Reading.run_andAsk fun root left hle => rfl
  | primary ts =>
    cases ts with
    | nil =>
      rw [outcome, Parser.primary]
      rfl
    | cons t ts =>
      rw [outcome, Parser.primary, body]
      split
      · exact Reading.run_andAsk fun e left hle => rfl
      · rfl
  | entity ts => rfl
  | suffixes root ts =>
    cases ts with
    | nil =>
      rw [outcome, Parser.suffixes]
      rfl
    | cons t ts =>
      rw [outcome, Parser.suffixes, body]
      split
      · exact Reading.run_andAsk fun name left hle => rfl
      split
      · exact Reading.run_andAsk fun key left hle => Reading.run_andAsk fun _ left hle => rfl
      split
      · exact Reading.run_andAsk fun args left hle => rfl
      · rfl
  | arguments ts =>
    rw [outcome, Parser.arguments, body]
    split
    · rfl
    · exact Reading.run_andAsk fun e left hle => rfl
  | moreArguments ts =>
    cases ts with
    | nil =>
      rw [outcome, Parser.moreArguments]
      rfl
    | cons t ts =>
      rw [outcome, Parser.moreArguments, body]
      split
      · rfl
      split
      · exact Reading.run_andAsk fun e left hle => rfl
      · rfl
  | statement ts =>
    cases ts with
    | nil => rfl
    | cons start ts =>
      rw [body, run_map, run_actionBody]
      rfl
  | newlines ts =>
    cases ts with
    | nil => rfl
    | cons t ts =>
      rw [outcome, body, dropNewlines, List.dropWhile_cons]
      split
      · rfl
      · rfl
  | statements ts =>
    cases ts with
    | nil =>
      rw [outcome, Parser.statements]
      rfl
    | cons start ts =>
      rw [outcome, Parser.statements]
      refine Reading.run_andAsk fun s left hle => ?_
      cases left with
      | nil => rfl
      | cons t left =>
        dsimp only
        split
        · rfl
        · rfl
  | program ts => rfl

/-- What the call calls, in order: what its body asks. -/
def callees (c : Call) : List Call :=
  (c.body file).asked (outcome file)

end Parser.Call

end GotoScript
