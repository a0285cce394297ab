import GotoScript.Value.Basic
import GotoScript.Value.Operator

/-!
# Runtime errors

What can go wrong while a program runs, each cause with its code and its text.
-/

namespace GotoScript

inductive RuntimeError where
  | undefinedVariable (name : String)
  | unknownSystemFunction (name : String)
  | unknownField (name : String)
  | argumentCount (expected found : Nat)
  /-- The argument at `place`, counted from one, has the wrong type. -/
  | argumentType (place : Nat) (expected found : TypeTag)
  | divisionByZero
  | labelNotFound (label : String)
  | nonBooleanCondition (found : TypeTag)
  | unknownOperator (text : String)
  | emptyChain
  | operandTypes (left : TypeTag) (operator : Operator) (right : TypeTag)
  | notOperand (found : TypeTag)
  | negateOperand (found : TypeTag)
  | unsupportedIndex (found : TypeTag)
  | unsupportedAssignmentTarget
  | notCallable (what : String)
  | service (error : ServiceError)
  | output (reason : String)
deriving DecidableEq, Repr

namespace RuntimeError

def code : RuntimeError → ErrorCode
  | undefinedVariable _ => .undefinedVariable
  | unknownSystemFunction _ => .unknownSystemFunction
  | unknownField _ => .unknownField
  | argumentCount .. => .argumentCountMismatch
  | argumentType .. => .argumentTypeMismatch
  | divisionByZero => .divisionByZero
  | labelNotFound _ => .labelNotFound
  | nonBooleanCondition _ => .nonBooleanCondition
  | unknownOperator _ | emptyChain | operandTypes .. | notOperand _ | negateOperand _ =>
    .operatorNotImplemented
  | unsupportedIndex _ => .unsupportedIndex
  | unsupportedAssignmentTarget => .unsupportedAssignmentTarget
  | notCallable _ => .notCallable
  | service e => e.code
  | output _ => .outputFailed

def message : RuntimeError → String
  | undefinedVariable name => "variable is not defined: " ++ name
  | unknownSystemFunction name => "unknown system function: $" ++ name
  | unknownField name => "unknown field: ." ++ name
  | argumentCount expected found =>
    "invalid argument count: expected " ++ toString expected ++ " but received " ++ toString found
  | argumentType place expected found =>
    "expected " ++ expected.text ++ " for argument #" ++ toString place ++ " but found " ++
      found.text
  | divisionByZero => "division by 0"
  | labelNotFound label => "label not found: " ++ label
  | nonBooleanCondition found =>
    "only booleans may be used as the condition of if statements, found " ++ found.text
  | unknownOperator text => "operator not implemented: " ++ text
  | emptyChain => "operator not implemented: empty operator chain"
  | operandTypes left operator right =>
    "operator not implemented: " ++ left.text ++ " " ++ operator.text ++ " " ++ right.text
  | notOperand found => "operator not implemented: not " ++ found.text
  | negateOperand found => "operator not implemented: -" ++ found.text
  | unsupportedIndex found => "index access is not supported on " ++ found.text
  | unsupportedAssignmentTarget => "only variables may be assigned to"
  | notCallable what => what ++ " is not callable"
  | service e => e.text
  | output reason => "failed to write output: " ++ reason

end RuntimeError

end GotoScript
