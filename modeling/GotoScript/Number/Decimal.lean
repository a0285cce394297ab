import GotoScript.Number.Binary

/-!
# Decimal texts of floats

The digits of a float's text are the fewest that read back as the same float, and among those the
nearest to it. `shortest` finds them by exact arithmetic: for one digit, two, and so on it tries the
two neighbours of the value on that decimal grid. How digits become a text is up to a `Layout`.
-/

namespace GotoScript.Number

/-- The number `digits * 10 ^ exponent`. -/
structure Decimal where
  digits : Nat
  exponent : Int
deriving DecidableEq, Repr

/-- Which of two equally near decimals is taken. -/
inductive Tie where
  | up
  | toEven
deriving DecidableEq, Repr

/-! ## Choosing the digits -/

/-- Compares `a * 10 ^ i` with `n * 2 ^ j`. -/
def compareScaled (a : Nat) (i : Int) (n : Nat) (j : Int) : Ordering :=
  compare (a * Nat.pow 10 i.toNat * Nat.pow 2 (-j).toNat)
    (n * Nat.pow 2 j.toNat * Nat.pow 10 (-i).toNat)

namespace Binary

/-- Below a power of two the next float is half as far away as above it. -/
def narrowBelow (b : Binary) : Bool :=
  b.mantissa = Nat.pow 2 52 && b.exponent > -1074

/-- Whether a decimal lies among the reals that round to the value. These reach half way to both
neighbours, ends included exactly when the mantissa is even. -/
def readsBack (b : Binary) (d : Decimal) : Bool :=
  let low := if b.narrowBelow then 4 * b.mantissa - 1 else 4 * b.mantissa - 2
  let high := 4 * b.mantissa + 2
  let even := b.mantissa % 2 = 0
  let atLow := compareScaled d.digits d.exponent low (b.exponent - 2)
  let atHigh := compareScaled d.digits d.exponent high (b.exponent - 2)
  (atLow = .gt ∨ (even ∧ atLow = .eq)) ∧ (atHigh = .lt ∨ (even ∧ atHigh = .eq))

/-- The least `k` with the value below `10 ^ k`. -/
def magnitude (b : Binary) : Int :=
  let guess := (((b.mantissa.log2 : Int) + b.exponent) * 30103).fdiv 100000 - 1
  let below (k : Int) : Bool := compareScaled 1 k b.mantissa b.exponent = .gt
  if below guess then guess
  else if below (guess + 1) then guess + 1
  else if below (guess + 2) then guess + 2
  else guess + 3

/-- The better of the value's two neighbours on the grid `10 ^ exponent`, if one reads back. -/
def onGrid? (b : Binary) (tie : Tie) (exponent : Int) : Option Decimal :=
  let numerator := b.mantissa * Nat.pow 2 b.exponent.toNat * Nat.pow 10 (-exponent).toNat
  let denominator := Nat.pow 2 (-b.exponent).toNat * Nat.pow 10 exponent.toNat
  let below := numerator / denominator
  let lower : Decimal := ⟨below, exponent⟩
  let upper : Decimal := ⟨below + 1, exponent⟩
  match b.readsBack lower, b.readsBack upper with
  | false, false => none
  | true, false => some lower
  | false, true => some upper
  | true, true =>
    match compare (2 * numerator) ((2 * below + 1) * denominator) with
    | .lt => some lower
    | .gt => some upper
    | .eq =>
      match tie with
      | .up => some upper
      | .toEven => some (if below % 2 = 0 then lower else upper)

/-- The value itself, with all its digits. -/
def exact (b : Binary) : Decimal :=
  if 0 ≤ b.exponent then ⟨b.mantissa * Nat.pow 2 b.exponent.toNat, 0⟩
  else ⟨b.mantissa * Nat.pow 5 (-b.exponent).toNat, b.exponent⟩

end Binary

/-- Moves the zeros at the end of `digits` into the exponent. -/
def Decimal.stripZeros (d : Decimal) : Decimal :=
  if d.digits = 0 then ⟨0, 0⟩
  else if d.digits % 10 = 0 then stripZeros ⟨d.digits / 10, d.exponent + 1⟩
  else d
termination_by d.digits
decreasing_by omega

/-- The digits of the absolute value. -/
def Binary.shortest (b : Binary) (tie : Tie) : Decimal :=
  if b.mantissa = 0 then ⟨0, 0⟩
  else
    let k := b.magnitude
    match (List.range 17).findSome? fun (n : Nat) => b.onGrid? tie (k - 1 - n) with
    | some d => d.stripZeros
    | none => b.exact.stripZeros

/-! ## Laying the digits out -/

/-- How a format writes its digits. -/
structure Layout where
  /-- The powers of ten of the first digit for which no exponent is written. -/
  positional : Int → Bool
  /-- Whole numbers keep one zero after the point. -/
  keepsFraction : Bool
  /-- Exponents that are not negative have a plus sign. -/
  signedExponent : Bool
  tie : Tie

namespace Layout

def zeros (n : Nat) : String :=
  String.ofList (List.replicate n '0')

/-- Writes the digits without an exponent. -/
def positionalText (layout : Layout) (d : Decimal) : String :=
  let digits := Nat.toDigits 10 d.digits
  let point := (digits.length : Int) + d.exponent
  if 0 ≤ d.exponent then
    String.ofList digits ++ zeros d.exponent.toNat ++ (if layout.keepsFraction then ".0" else "")
  else if 0 < point then
    String.ofList (digits.take point.toNat) ++ "." ++ String.ofList (digits.drop point.toNat)
  else
    "0." ++ zeros (-point).toNat ++ String.ofList digits

/-- Writes the digits with one of them before the point, and an exponent. -/
def exponentText (layout : Layout) (d : Decimal) : String :=
  let digits := Nat.toDigits 10 d.digits
  let power := (digits.length : Int) + d.exponent - 1
  String.ofList (digits.take 1) ++
    (if digits.length > 1 then "." ++ String.ofList (digits.drop 1) else "") ++
    "e" ++ (if power < 0 then "-" else if layout.signedExponent then "+" else "") ++
    toString power.natAbs

def decimalText (layout : Layout) (d : Decimal) : String :=
  let power := ((Nat.toDigits 10 d.digits).length : Int) + d.exponent - 1
  if layout.positional power then layout.positionalText d else layout.exponentText d

/-- The text of a float. -/
def text (layout : Layout) (x : Float) : String :=
  match Binary.ofFloat? x with
  | some b => (if b.negative then "-" else "") ++ layout.decimalText (b.shortest layout.tie)
  | none => if x.isNaN then "NaN" else if x < 0 then "-inf" else "inf"

end Layout

end GotoScript.Number
