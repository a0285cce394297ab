import GotoScript.Token.Basic

/-!
# Programs

A program is a list of statements, each with the place where it starts. Expressions joined by
operators of one precedence make one flat chain: operands and, between them, the operator tokens.
-/

namespace GotoScript

inductive Expr where
  | int (value : Int64)
  | float (value : Float)
  | text (value : String)
  | bool (value : Bool)
  | null
  /-- A variable. -/
  | var (name : String)
  /-- A function of the system, written with a dollar sign. -/
  | system (name : String)
  /-- The root under which services are found. -/
  | serviceRoot
  /-- Operands folded from the left. A chain that was parsed has one operand more than operators; one
  that was received may have any number of both. -/
  | chain (operands : List Expr) (operators : List Token)
  | field (root : Expr) (name : String)
  | index (root key : Expr)
  | call (root : Expr) (args : List Expr)
  | not (operand : Expr)
  | negate (operand : Expr)

/-- The word that stands for the service root. -/
def Expr.rootWord : String := "CTC"

/-- What a statement does. -/
inductive Action where
  | label (name : String)
  | branch (condition : Expr) (whenTrue : String) (whenFalse : Option String)
  | jump (label : String)
  | print (value : Expr)
  | assign (target value : Expr)
  | evaluate (value : Expr)

structure Statement where
  action : Action
  position : Position

/-- The name that a label statement gives. -/
def Statement.labelName? (s : Statement) : Option String :=
  match s.action with
  | .label name => some name
  | _ => none

structure Program where
  statements : List Statement

end GotoScript
