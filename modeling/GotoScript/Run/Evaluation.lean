import GotoScript.Program.Basic
import GotoScript.Run.Event
import GotoScript.Value.Arithmetic

/-!
# Evaluation

Evaluating an expression gives a value or an error, and adds to the events of the run. The operands
of a chain are evaluated from the left and folded from the left. A chain with `and` or `or` in it
passes over every operand that cannot change the result; any other chain evaluates all its operands
before it applies the first operator.
-/

namespace GotoScript

/-- What a statement can reach outside. -/
structure Host where
  registry : Registry
  /-- The seconds that the clock shows. -/
  clock : Float
  /-- The moment at which services are asked. -/
  moment : Nat := 0

abbrev Environment := Bindings Value

def Environment.get (env : Environment) (name : String) : Except RuntimeError Value :=
  match env.find? name with
  | some value => .ok value
  | none => .error (.undefinedVariable name)

/-- A computation that may fail and that adds events, also when it fails. The latest event stands
first. -/
abbrev Eval := ExceptT RuntimeError (StateM (List Event))

namespace Eval

def record (e : Event) : Eval Unit :=
  modify (e :: ·)

def ofExcept {α : Type} : Except RuntimeError α → Eval α
  | .ok a => pure a
  | .error e => throw e

end Eval

/-! ## Calls -/

namespace NativeFunction

/-- The first argument whose type is not the one of its parameter, counted from `place`. -/
def checkTypes (place : Nat) : List TypeTag → List Value → Except RuntimeError Unit
  | expected :: parameters, arg :: args =>
    if arg.tag = expected then checkTypes (place + 1) parameters args
    else .error (.argumentType place expected arg.tag)
  | _, _ => .ok ()

/-- Arguments have to agree with the parameters in number and in type. -/
def checkArgs (f : NativeFunction) (args : List Value) : Except RuntimeError Unit :=
  if args.length = f.arity then checkTypes 1 f.parameters args
  else .error (.argumentCount f.arity args.length)

/-- The whole milliseconds of a pause; one that is not positive takes no time. -/
def pauseMillis (seconds : Float) : Nat :=
  let millis := seconds * 1000.0
  match Number.Binary.ofFloat? millis with
  | some b => min b.floor.toNat (UInt64.size - 1)
  | none => if millis > 0 then UInt64.size - 1 else 0

/-- Runs the function. -/
def call (host : Host) (f : NativeFunction) (args : List Value) : Eval NativeResult :=
  match f, args with
  | .currentTime, [] => return .number host.clock
  | .pause, [.float seconds] => do
    let millis := pauseMillis seconds
    if millis > 0 then Eval.record (.paused millis)
    return .nothing
  | .sendString client, [.text request] => do
    Eval.record (.requested client.name request)
    match client.sendText host.moment request with
    | .ok reply => return .text reply
    | .error e => throw (.service e)
  | f, args => do
    Eval.ofExcept (f.checkArgs args)
    throw (.notCallable f.text)

end NativeFunction

namespace Value

/-- The field of a value: a service of the root, or what a service can be asked. -/
def field (host : Host) (root : Value) (name : String) : Except RuntimeError Value :=
  match root with
  | serviceRoot =>
    match host.registry.resolve name none with
    | .ok client => .ok (.service client)
    | .error e => .error (.service e)
  | service client =>
    if name = "sendString" then .ok (.function (.sendString client)) else .error (.unknownField name)
  | _ => .error (.unknownField name)

def call (host : Host) (callee : Value) (args : List Value) : Eval Value :=
  match callee with
  | function f => do
    Eval.ofExcept (f.checkArgs args)
    Eval.record (.called f.name args.length)
    return (← f.call host args).toValue
  | v => throw (.notCallable v.tag.text)

/-- Whether `op` gives `v` for every operand on its right. -/
def settles (op : Operator) (v : Value) : Bool :=
  match op, v with
  | .and, .bool false => true
  | .or, .bool true => true
  | _, _ => false

/-- Applies operators from the left as long as there are operators and operands. -/
def applyAll (first : Value) : List Operator → List Value → Except RuntimeError Value
  | op :: operators, v :: values => do
    let next ← first.apply op v
    applyAll next operators values
  | _, _ => .ok first

end Value

/-! ## Expressions -/

/-- The operators that tokens spell, up to the first that spells none. -/
def Operator.ofTokens : List Token → Except RuntimeError (List Operator)
  | [] => .ok []
  | t :: rest =>
    match Operator.ofText? t.text with
    | none => .error (.unknownOperator t.text)
    | some op => do
      let more ← ofTokens rest
      return op :: more

namespace Expr

variable (host : Host) (env : Environment)

mutual

def eval : Expr → Eval Value
  | int n => return .int n
  | float x => return .float x
  | text s => return .text s
  | bool b => return .bool b
  | null => return .null
  | var name => Eval.ofExcept (env.get name)
  | system name =>
    match NativeFunction.ofSystemName? name with
    | some f => return .function f
    | none => throw (.unknownSystemFunction name)
  | serviceRoot => return .serviceRoot
  | chain operands tokens => do
    let operators ← Eval.ofExcept (Operator.ofTokens tokens)
    match operands with
    | [] => throw .emptyChain
    | first :: rest => do
      let first ← eval first
      if operators.any Operator.isLogical then evalLazily first operators rest
      else do
        let values ← evalAll rest
        Eval.ofExcept (first.applyAll operators values)
  | field root name => do
    let root ← eval root
    Eval.ofExcept (root.field host name)
  | index root _ => do
    let root ← eval root
    throw (.unsupportedIndex root.tag)
  | call root args => do
    let callee ← eval root
    let args ← evalAll args
    callee.call host args
  | not e => do
    let v ← eval e
    Eval.ofExcept v.not
  | negate e => do
    let v ← eval e
    Eval.ofExcept v.negate

def evalAll : List Expr → Eval (List Value)
  | [] => return []
  | e :: rest => do
    let v ← eval e
    let vs ← evalAll rest
    return v :: vs

/-- Applies operators to operands that are evaluated only where they can change the result. -/
def evalLazily (acc : Value) : List Operator → List Expr → Eval Value
  | op :: operators, e :: rest =>
    if Value.settles op acc then evalLazily acc operators rest
    else do
      let right ← eval e
      let next ← Eval.ofExcept (acc.apply op right)
      evalLazily next operators rest
  | _, _ => return acc

end

end Expr

end GotoScript
