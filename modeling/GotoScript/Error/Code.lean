/-!
# Error codes

Every failure has one of these codes, which stay the same wherever the failure is reported.
-/

namespace GotoScript

inductive ErrorCode where
  | unclosedItem
  | badRequest
  | parseError
  | unsupported
  | serviceNotFound
  | undefinedVariable
  | unknownSystemFunction
  | unknownField
  | argumentCountMismatch
  | argumentTypeMismatch
  | divisionByZero
  | labelNotFound
  | nonBooleanCondition
  | operatorNotImplemented
  | unsupportedIndex
  | unsupportedAssignmentTarget
  | notCallable
  | outputFailed
deriving DecidableEq, Repr

namespace ErrorCode

def all : List ErrorCode :=
  [.unclosedItem, .badRequest, .parseError, .unsupported, .serviceNotFound, .undefinedVariable,
    .unknownSystemFunction, .unknownField, .argumentCountMismatch, .argumentTypeMismatch,
    .divisionByZero, .labelNotFound, .nonBooleanCondition, .operatorNotImplemented,
    .unsupportedIndex, .unsupportedAssignmentTarget, .notCallable, .outputFailed]

def text : ErrorCode → String
  | unclosedItem => "UNCLOSED_ITEM"
  | badRequest => "BAD_REQUEST"
  | parseError => "PARSE_ERROR"
  | unsupported => "UNSUPPORTED"
  | serviceNotFound => "SERVICE_NOT_FOUND"
  | undefinedVariable => "UNDEFINED_VARIABLE"
  | unknownSystemFunction => "UNKNOWN_SYSTEM_FUNCTION"
  | unknownField => "UNKNOWN_FIELD"
  | argumentCountMismatch => "ARGUMENT_COUNT_MISMATCH"
  | argumentTypeMismatch => "ARGUMENT_TYPE_MISMATCH"
  | divisionByZero => "DIVISION_BY_ZERO"
  | labelNotFound => "LABEL_NOT_FOUND"
  | nonBooleanCondition => "NON_BOOLEAN_CONDITION"
  | operatorNotImplemented => "OPERATOR_NOT_IMPLEMENTED"
  | unsupportedIndex => "UNSUPPORTED_INDEX"
  | unsupportedAssignmentTarget => "UNSUPPORTED_ASSIGNMENT_TARGET"
  | notCallable => "NOT_CALLABLE"
  | outputFailed => "OUTPUT_FAILED"

/-- The code that is written so. -/
def ofText? (text : String) : Option ErrorCode :=
  all.find? (·.text = text)

end ErrorCode

end GotoScript
