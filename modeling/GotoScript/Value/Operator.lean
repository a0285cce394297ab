/-!
# Operators

The binary operators and how they are written.
-/

namespace GotoScript

inductive Operator where
  | add
  | sub
  | mul
  | div
  | rem
  | less
  | greater
  | lessEqual
  | greaterEqual
  | equal
  | notEqual
  | and
  | or
deriving DecidableEq, Repr

namespace Operator

def all : List Operator :=
  [.add, .sub, .mul, .div, .rem, .less, .greater, .lessEqual, .greaterEqual, .equal, .notEqual,
    .and, .or]

def text : Operator → String
  | add => "+"
  | sub => "-"
  | mul => "*"
  | div => "/"
  | rem => "%"
  | less => "<"
  | greater => ">"
  | lessEqual => "<="
  | greaterEqual => ">="
  | equal => "=="
  | notEqual => "!="
  | and => "and"
  | or => "or"

def ofText? (text : String) : Option Operator :=
  all.find? (·.text = text)

/-- `and` and `or`, which can settle a result before all operands are known. -/
def isLogical : Operator → Bool
  | and | or => true
  | _ => false

end Operator

end GotoScript
