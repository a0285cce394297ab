import GotoScript.Value.Arithmetic

/-!
# What operators make of two values

The types of two values say whether an operator has a meaning for them and of what type the result is. Only a divisor
that is zero takes more than the types to see.

* `Operator.Takes op left right` : the operator has a meaning for operands of these types; `Operator.resultTag` : the
  type of what it gives;
* `Value.DividesByZero` : the right operand is a zero to divide by;
* `NumberOutcome` : what an operator on numbers can answer, the same for integers and floats;
* `Value.apply_outcome` : what applying an operator can answer; `Value.apply_fails_iff` : when it fails, and how.
-/

namespace GotoScript

/-! ## Classes of operators -/

namespace Operator

def isArithmetic : Operator → Bool
  | add | sub | mul | div | rem => true
  | _ => false

def isOrdering : Operator → Bool
  | less | greater | lessEqual | greaterEqual => true
  | _ => false

def isEquality : Operator → Bool
  | equal | notEqual => true
  | _ => false

/-- Division and remainder. -/
def divides : Operator → Bool
  | div | rem => true
  | _ => false

end Operator

def TypeTag.isNumber : TypeTag → Bool
  | int | float => true
  | _ => false

namespace Operator

/-- The operator has a meaning for operands of these types. -/
def Takes (op : Operator) (left right : TypeTag) : Prop :=
  op.isEquality ∨ (left.isNumber ∧ right.isNumber ∧ (op.isArithmetic ∨ op.isOrdering)) ∨
    (left = .bool ∧ right = .bool ∧ op.isLogical) ∨ (op = .add ∧ (left = .string ∨ right = .string))

instance (op : Operator) (left right : TypeTag) : Decidable (op.Takes left right) :=
  inferInstanceAs (Decidable (_ ∨ _ ∨ _ ∨ _))

/-- The type of the result, where the operator has a meaning. -/
def resultTag (op : Operator) (left right : TypeTag) : TypeTag :=
  if op.isArithmetic then
    if left = .string ∨ right = .string then .string
    else if left = .int ∧ right = .int then .int
    else .float
  else .bool

theorem isArithmetic_of_divides {op : Operator} (h : op.divides) : op.isArithmetic := by
  cases op <;> first | rfl | cases h

end Operator

theorem RuntimeError.message_operandTypes (left : TypeTag) (op : Operator) (right : TypeTag) :
    (operandTypes left op right).message =
      "operator not implemented: " ++ (left.text ++ " " ++ op.text ++ " " ++ right.text) := by
  unfold message
  dsimp only
  repeat rw [String.append_assoc]

/-! ## Numbers -/

/-- The answers of an operator on numbers: results of arithmetic have the type `tag`, and `zero` says that the right
operand is zero. -/
inductive NumberOutcome (tag : TypeTag) (zero : Prop) (op : Operator) : Except RuntimeError (Option Value) → Prop where
  | number {v : Value} (h : op.isArithmetic) (hzero : ¬ (op.divides ∧ zero)) (hv : v.tag = tag) :
    NumberOutcome tag zero op (.ok (some v))
  | truth {b : Bool} (h : op.isOrdering) : NumberOutcome tag zero op (.ok (some (.bool b)))
  | divisionByZero (h : op.divides) (hzero : zero) : NumberOutcome tag zero op (.error .divisionByZero)
  | meaningless (h : ¬ op.isArithmetic) (h' : ¬ op.isOrdering) : NumberOutcome tag zero op (.ok none)

theorem intOperation_outcome (a : Int64) (op : Operator) (b : Int64) :
    NumberOutcome .int (b = 0) op (intOperation a op b) := by
  cases op with
  | add | sub | mul => exact .number rfl (by simp [Operator.divides]) rfl
  | div | rem =>
    rw [intOperation]
    split
    · next hb => exact .divisionByZero rfl hb
    · next hb => exact .number rfl (fun h => hb h.2) rfl
  | less | greater | lessEqual | greaterEqual => exact .truth rfl
  | equal | notEqual | and | or => exact .meaningless (by decide) (by decide)

theorem floatOperation_outcome (a : Float) (op : Operator) (b : Float) :
    NumberOutcome .float (b == 0.0) op (floatOperation a op b) := by
  cases op with
  | add | sub | mul => exact .number rfl (by simp [Operator.divides]) rfl
  | div | rem =>
    rw [floatOperation]
    split
    · next hb => exact .divisionByZero rfl hb
    · next hb => exact .number rfl (fun h => hb h.2) rfl
  | less | greater | lessEqual | greaterEqual => exact .truth rfl
  | equal | notEqual | and | or => exact .meaningless (by decide) (by decide)

/-! ## Values -/

namespace Value

/-- Both values are numbers, and the right one is zero: as an integer if both are integers, and as a float otherwise. -/
inductive DividesByZero : Value → Value → Prop where
  | int {a : Int64} : DividesByZero (.int a) (.int 0)
  | float {left right : Value} {x : Float} (hleft : left.tag.isNumber) (hright : right.number? = some x)
    (hfloat : left.tag = .float ∨ right.tag = .float) (hx : x == 0.0) : DividesByZero left right

theorem DividesByZero.isNumber {left right : Value} (h : DividesByZero left right) :
    left.tag.isNumber ∧ right.tag.isNumber := by
  cases h with
  | int => exact ⟨rfl, rfl⟩
  | float hleft hright _ _ =>
    refine ⟨hleft, ?_⟩
    cases right with
    | int | float => rfl
    | _ => cases hright

theorem dividesByZero_int_iff {a b : Int64} : DividesByZero (.int a) (.int b) ↔ b = 0 := by
  constructor
  · rintro (_ | ⟨-, -, h, -⟩)
    · rfl
    · rcases h with h | h <;> cases h
  · rintro rfl
    exact .int

theorem dividesByZero_float_iff {left right : Value} {x : Float} (hleft : left.tag.isNumber)
    (hright : right.number? = some x) (hfloat : left.tag = .float ∨ right.tag = .float) :
    DividesByZero left right ↔ x == 0.0 := by
  refine ⟨?_, .float hleft hright hfloat⟩
  rintro (_ | ⟨-, hy, -, hx⟩)
  · rcases hfloat with h | h <;> cases h
  · rw [hright] at hy
    cases hy
    exact hx

/-- Two numbers have the answers of numbers. The result is an integer only if both are. -/
theorem typedOperation_outcome {left right : Value} (hleft : left.tag.isNumber) (hright : right.tag.isNumber)
    (op : Operator) :
    NumberOutcome (if left.tag = .int ∧ right.tag = .int then .int else .float) (DividesByZero left right) op
      (typedOperation op left right) := by
  cases left with
  | int a =>
    cases right with
    | int b =>
      rw [dividesByZero_int_iff]
      exact intOperation_outcome a op b
    | float y =>
      rw [dividesByZero_float_iff rfl rfl (.inr rfl)]
      exact floatOperation_outcome _ op y
    | _ => cases hright
  | float x =>
    cases right with
    | int b =>
      rw [dividesByZero_float_iff rfl rfl (.inl rfl)]
      exact floatOperation_outcome x op _
    | float y =>
      rw [dividesByZero_float_iff rfl rfl (.inl rfl)]
      exact floatOperation_outcome x op y
    | _ => cases hright
  | _ => cases hleft

theorem typedOperation_eq_none {left right : Value} (hnumber : ¬ (left.tag.isNumber ∧ right.tag.isNumber))
    (hbool : ¬ (left.tag = .bool ∧ right.tag = .bool)) (op : Operator) :
    typedOperation op left right = .ok none := by
  rw [typedOperation.eq_def]
  split
  · exact absurd ⟨rfl, rfl⟩ hnumber
  · exact absurd ⟨rfl, rfl⟩ hnumber
  · exact absurd ⟨rfl, rfl⟩ hnumber
  · exact absurd ⟨rfl, rfl⟩ hnumber
  · exact absurd ⟨rfl, rfl⟩ hbool
  · rfl

theorem isText_iff {v : Value} : v.isText ↔ v.tag = .string := by
  cases v <;> simp [isText, tag]

section apply

variable {left right v : Value} {op : Operator}

theorem apply_of_typed_error {error : RuntimeError} (hop : ¬ op.isEquality)
    (h : typedOperation op left right = .error error) : left.apply op right = .error error := by
  unfold apply
  rw [if_neg (by rintro rfl; exact hop rfl), if_neg (by rintro rfl; exact hop rfl), h]
  rfl

theorem apply_of_typed_value (hop : ¬ op.isEquality) (h : typedOperation op left right = .ok (some v)) :
    left.apply op right = .ok v := by
  unfold apply
  rw [if_neg (by rintro rfl; exact hop rfl), if_neg (by rintro rfl; exact hop rfl), h]
  rfl

/-- Where the types give nothing by themselves, there is still the joining of texts. -/
theorem apply_of_typed_none (hop : ¬ op.isEquality) (h : typedOperation op left right = .ok none) :
    left.apply op right =
      if op = .add ∧ (left.tag = .string ∨ right.tag = .string) then .ok (.text (left.shown ++ right.shown))
      else .error (.operandTypes left.tag op right.tag) := by
  unfold apply
  rw [if_neg (by rintro rfl; exact hop rfl), if_neg (by rintro rfl; exact hop rfl), h]
  simp only [← isText_iff]
  rfl

end apply

/-- The answers of an operator. -/
inductive Outcome (left : Value) (op : Operator) (right : Value) : Except RuntimeError Value → Prop where
  | value {v : Value} (htakes : op.Takes left.tag right.tag) (hzero : ¬ (op.divides ∧ DividesByZero left right))
    (htag : v.tag = op.resultTag left.tag right.tag)
    (htext : v.tag = .string → v = .text (left.shown ++ right.shown)) : Outcome left op right (.ok v)
  | divisionByZero (hop : op.divides) (hzero : DividesByZero left right) :
    Outcome left op right (.error .divisionByZero)
  | operandTypes (h : ¬ op.Takes left.tag right.tag) :
    Outcome left op right (.error (.operandTypes left.tag op right.tag))

theorem outcome_of_isEquality {left right : Value} {op : Operator} (hop : op.isEquality) :
    Outcome left op right (left.apply op right) := by
  have htakes : op.Takes left.tag right.tag := .inl hop
  cases op with
  | equal | notEqual => exact .value htakes (by simp [Operator.divides]) rfl (by simp [tag])
  | _ => cases hop

theorem outcome_of_numbers {left right : Value} {op : Operator} (hop : ¬ op.isEquality)
    (hleft : left.tag.isNumber) (hright : right.tag.isNumber) :
    Outcome left op right (left.apply op right) := by
  have htext : ¬ (left.tag = .string ∨ right.tag = .string) := by
    rintro (h | h)
    · rw [h] at hleft
      cases hleft
    · rw [h] at hright
      cases hright
  generalize hresult : typedOperation op left right = result, typedOperation_outcome hleft hright op = houtcome
  cases houtcome with
  | @number v harith hzero hv =>
    have htag : v.tag = op.resultTag left.tag right.tag := by
      rw [Operator.resultTag, if_pos harith, if_neg htext, hv]
    rw [apply_of_typed_value hop hresult]
    refine .value (.inr (.inl ⟨hleft, hright, .inl harith⟩)) hzero htag fun hstring => ?_
    rw [hv] at hstring
    split at hstring <;> cases hstring
  | truth horder =>
    have hnot : op.isArithmetic = false := by cases op <;> first | rfl | cases horder
    have hdivides : ¬ op.divides := by cases op <;> first | decide | cases horder
    rw [apply_of_typed_value hop hresult]
    refine .value (.inr (.inl ⟨hleft, hright, .inr horder⟩)) (fun h => hdivides h.1) ?_ (by simp [tag])
    rw [Operator.resultTag, hnot]
    rfl
  | divisionByZero hdivides hzero =>
    rw [apply_of_typed_error hop hresult]
    exact .divisionByZero hdivides hzero
  | meaningless harith horder =>
    have htakes : ¬ op.Takes left.tag right.tag := by
      rintro (h | ⟨-, -, h | h⟩ | ⟨h, -⟩ | ⟨-, h⟩)
      · exact hop h
      · exact harith h
      · exact horder h
      · rw [h] at hleft
        cases hleft
      · exact htext h
    rw [apply_of_typed_none hop hresult, if_neg fun h => htext h.2]
    exact .operandTypes htakes

theorem outcome_of_bools {op : Operator} (hop : ¬ op.isEquality) (a b : Bool) :
    Outcome (.bool a) op (.bool b) ((bool a).apply op (.bool b)) := by
  cases op with
  | and | or =>
    exact .value (.inr (.inr (.inl ⟨rfl, rfl, rfl⟩))) (by simp [Operator.divides]) rfl (by simp [tag])
  | equal | notEqual => exact absurd rfl hop
  | _ => exact .operandTypes (show ¬ Operator.Takes _ .bool .bool by decide)

theorem outcome_of_others {left right : Value} {op : Operator} (hop : ¬ op.isEquality)
    (hnumber : ¬ (left.tag.isNumber ∧ right.tag.isNumber)) (hbool : ¬ (left.tag = .bool ∧ right.tag = .bool)) :
    Outcome left op right (left.apply op right) := by
  rw [apply_of_typed_none hop (typedOperation_eq_none hnumber hbool op)]
  split
  · next h =>
    refine .value (.inr (.inr (.inr h))) (fun hzero => hnumber hzero.2.isNumber) ?_ fun _ => rfl
    rw [h.1, Operator.resultTag, if_pos (by rfl), if_pos h.2]
    rfl
  · next h =>
    refine .operandTypes ?_
    rintro (hequality | ⟨hleft, hright, -⟩ | ⟨hleft, hright, -⟩ | hadd)
    · exact hop hequality
    · exact hnumber ⟨hleft, hright⟩
    · exact hbool ⟨hleft, hright⟩
    · exact h hadd

theorem apply_outcome (left : Value) (op : Operator) (right : Value) :
    Outcome left op right (left.apply op right) := by
  by_cases hop : op.isEquality
  · exact outcome_of_isEquality hop
  by_cases hnumber : left.tag.isNumber ∧ right.tag.isNumber
  · exact outcome_of_numbers hop hnumber.1 hnumber.2
  by_cases hbool : left.tag = .bool ∧ right.tag = .bool
  · cases left with
    | bool a =>
      cases right with
      | bool b => exact outcome_of_bools hop a b
      | _ => cases hbool.2
    | _ => cases hbool.1
  · exact outcome_of_others hop hnumber hbool

/-- A divisor that is zero is a number, and division has a meaning for numbers. -/
theorem takes_of_dividesByZero {left right : Value} {op : Operator} (hop : op.divides)
    (hzero : DividesByZero left right) : op.Takes left.tag right.tag :=
  .inr (.inl ⟨hzero.isNumber.1, hzero.isNumber.2, .inl (Operator.isArithmetic_of_divides hop)⟩)

/-- An operator fails in two ways only. Division and remainder fail on a zero divisor, and every operator fails on
types that it has no meaning for, with an error that names the types and the operator. In every other case there is a
value, of a type that the operator and the types determine; a text is what both sides show, joined. Whether two values are
equal always has an answer, and whether they differ has the opposite one. -/
theorem apply_fails_iff (left : Value) (op : Operator) (right : Value) :
    (left.apply op right = .error .divisionByZero ↔ op.divides ∧ DividesByZero left right) ∧
      (left.apply op right = .error (.operandTypes left.tag op right.tag) ↔ ¬ op.Takes left.tag right.tag) ∧
      (RuntimeError.operandTypes left.tag op right.tag).code = .operatorNotImplemented ∧
      (RuntimeError.operandTypes left.tag op right.tag).message =
        "operator not implemented: " ++ (left.tag.text ++ " " ++ op.text ++ " " ++ right.tag.text) ∧
      ((∃ v, left.apply op right = .ok v ∧ v.tag = op.resultTag left.tag right.tag ∧
          (v.tag = .string → v = .text (left.shown ++ right.shown))) ↔
        op.Takes left.tag right.tag ∧ ¬ (op.divides ∧ DividesByZero left right)) ∧
      ∃ b, left.apply .equal right = .ok (.bool b) ∧ left.apply .notEqual right = .ok (.bool !b) := by
  generalize hresult : left.apply op right = result, apply_outcome left op right = houtcome
  refine ⟨?_, ?_, rfl, RuntimeError.message_operandTypes _ _ _, ?_, left.equals right, rfl, rfl⟩
  · constructor
    · rintro rfl
      cases houtcome with
      | divisionByZero hop hzero => exact ⟨hop, hzero⟩
    · rintro ⟨hop, hzero⟩
      cases houtcome with
      | value _ hno _ _ => exact absurd ⟨hop, hzero⟩ hno
      | divisionByZero _ _ => rfl
      | operandTypes hno => exact absurd (takes_of_dividesByZero hop hzero) hno
  · constructor
    · rintro rfl
      cases houtcome with
      | operandTypes h => exact h
    · intro hno
      cases houtcome with
      | value h _ _ _ => exact absurd h hno
      | divisionByZero hop hzero => exact absurd (takes_of_dividesByZero hop hzero) hno
      | operandTypes _ => rfl
  · constructor
    · rintro ⟨v, rfl, -⟩
      cases houtcome with
      | value htakes hzero _ _ => exact ⟨htakes, hzero⟩
    · rintro ⟨htakes, hzero⟩
      cases houtcome with
      | @value v _ _ htag htext => exact ⟨v, rfl, htag, htext⟩
      | divisionByZero hop h => exact absurd ⟨hop, h⟩ hzero
      | operandTypes h => exact absurd htakes h

end Value

end GotoScript
