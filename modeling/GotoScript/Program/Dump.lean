import GotoScript.Number.Decimal
import GotoScript.Program.Basic
import GotoScript.Text.Quoted

/-!
# Dumps of programs

A program is shown with one statement to a line, every compound in parentheses. Chains are shown with
their operators between the operands, so that a flat chain and a nested one look different.
-/

namespace GotoScript

/-- Floats are dumped without an exponent from `1e-4` up to `1e16`, and always with a fraction or an
exponent. Of two equally near decimals the upper one is written. -/
def dumpLayout : Number.Layout where
  positional power := -4 ≤ power && power < 16
  keepsFraction := true
  signedExponent := false
  tie := .up

def boolText (b : Bool) : String :=
  if b then "true" else "false"

namespace Expr

mutual

def dump : Expr → String
  | int n => toString n.toInt
  | float x => dumpLayout.text x
  | text s => Text.quoted s
  | bool b => boolText b
  | null => "null"
  | var name => name
  | system name => "$" ++ name
  | serviceRoot => rootWord
  | chain [] _ => "()"
  | chain (first :: rest) operators => "(" ++ dump first ++ dumpRest rest operators ++ ")"
  | field root name => "(. " ++ dump root ++ " " ++ name ++ ")"
  | index root key => "([] " ++ dump root ++ " " ++ dump key ++ ")"
  | call root args => "(call " ++ dump root ++ dumpArgs args ++ ")"
  | not e => "(not " ++ dump e ++ ")"
  | negate e => "(- " ++ dump e ++ ")"

/-- The operands after the first, each with its operator before it as long as there are operators. -/
def dumpRest : List Expr → List Token → String
  | [], _ => ""
  | e :: rest, [] => " " ++ dump e ++ dumpRest rest []
  | e :: rest, operator :: operators =>
    " " ++ operator.text ++ " " ++ dump e ++ dumpRest rest operators

def dumpArgs : List Expr → String
  | [] => ""
  | e :: rest => " " ++ dump e ++ dumpArgs rest

end

end Expr

def Action.dump : Action → String
  | label name => "@" ++ name
  | branch condition whenTrue none => "(if " ++ condition.dump ++ " @" ++ whenTrue ++ ")"
  | branch condition whenTrue (some whenFalse) =>
    "(if " ++ condition.dump ++ " @" ++ whenTrue ++ " @" ++ whenFalse ++ ")"
  | jump target => "(goto @" ++ target ++ ")"
  | print e => "(print " ++ e.dump ++ ")"
  | assign target value => "(= " ++ target.dump ++ " " ++ value.dump ++ ")"
  | evaluate e => e.dump

def Program.dump (p : Program) : String :=
  String.join (p.statements.map fun s => s.action.dump ++ "\n")

end GotoScript
