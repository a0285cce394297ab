import GotoScript.Error.Runtime

/-!
# Applying operators

Integers are 64-bit words: sums, differences and products wrap, and division rounds down. As soon as
one of two numbers is a float both are, and the remainder then rounds toward zero. `and` and `or` take
truth values only, and `+` joins texts when either side is one.
-/

namespace GotoScript

/-! ## Integers -/

/-- The quotient rounded down, for a divisor that is not zero. -/
def floorDiv (a b : Int64) : Int64 :=
  let q := a / b
  if a % b ≠ 0 ∧ (a < 0) ≠ (b < 0) then q - 1 else q

/-- The remainder that goes with `floorDiv`, which has the sign of the divisor. -/
def floorRem (a b : Int64) : Int64 :=
  let r := a % b
  if r ≠ 0 ∧ (r < 0) ≠ (b < 0) then r + b else r

/-- An operator on integers, if it has a meaning there. -/
def intOperation (a : Int64) (op : Operator) (b : Int64) : Except RuntimeError (Option Value) :=
  match op with
  | .add => .ok (some (.int (a + b)))
  | .sub => .ok (some (.int (a - b)))
  | .mul => .ok (some (.int (a * b)))
  | .div => if b = 0 then .error .divisionByZero else .ok (some (.int (floorDiv a b)))
  | .rem => if b = 0 then .error .divisionByZero else .ok (some (.int (floorRem a b)))
  | .less => .ok (some (.bool (a < b)))
  | .greater => .ok (some (.bool (a > b)))
  | .lessEqual => .ok (some (.bool (a ≤ b)))
  | .greaterEqual => .ok (some (.bool (a ≥ b)))
  | .equal | .notEqual | .and | .or => .ok none

/-! ## Floats and truth values -/

/-- An operator on floats, if it has a meaning there. -/
def floatOperation (a : Float) (op : Operator) (b : Float) : Except RuntimeError (Option Value) :=
  match op with
  | .add => .ok (some (.float (a + b)))
  | .sub => .ok (some (.float (a - b)))
  | .mul => .ok (some (.float (a * b)))
  | .div => if b == 0.0 then .error .divisionByZero else .ok (some (.float (a / b)))
  | .rem => if b == 0.0 then .error .divisionByZero else .ok (some (.float (Number.remainder a b)))
  | .less => .ok (some (.bool (a < b)))
  | .greater => .ok (some (.bool (a > b)))
  | .lessEqual => .ok (some (.bool (a ≤ b)))
  | .greaterEqual => .ok (some (.bool (a ≥ b)))
  | .equal | .notEqual | .and | .or => .ok none

def boolOperation (a : Bool) (op : Operator) (b : Bool) : Option Value :=
  match op with
  | .and => some (.bool (a && b))
  | .or => some (.bool (a || b))
  | _ => none

/-! ## Values -/

namespace Value

/-- What the types of both sides give by themselves. -/
def typedOperation (op : Operator) : Value → Value → Except RuntimeError (Option Value)
  | int a, int b => intOperation a op b
  | int a, float b => floatOperation (Float.ofInt a.toInt) op b
  | float a, int b => floatOperation a op (Float.ofInt b.toInt)
  | float a, float b => floatOperation a op b
  | bool a, bool b => .ok (boolOperation a op b)
  | _, _ => .ok none

def isText : Value → Bool
  | text _ => true
  | _ => false

/-- Applies a binary operator. -/
def apply (left : Value) (op : Operator) (right : Value) : Except RuntimeError Value :=
  if op = .equal then .ok (.bool (left.equals right))
  else if op = .notEqual then .ok (.bool !(left.equals right))
  else do
    match ← typedOperation op left right with
    | some value => return value
    | none =>
      if op = .add ∧ (left.isText ∨ right.isText) then return .text (left.shown ++ right.shown)
      else throw (.operandTypes left.tag op right.tag)

def not : Value → Except RuntimeError Value
  | bool b => .ok (.bool !b)
  | v => .error (.notOperand v.tag)

def negate : Value → Except RuntimeError Value
  | int n => .ok (.int (-n))
  | float x => .ok (.float (-x))
  | v => .error (.negateOperand v.tag)

end Value

end GotoScript
