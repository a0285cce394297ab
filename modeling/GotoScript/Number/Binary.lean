/-!
# Binary numbers

A finite float is a sign, a natural mantissa and a power of two, and all that is asked of it here is
answered exactly from these three: whether it is whole, its floor, and the remainder of a division.
-/

namespace GotoScript.Number

/-- The number `± mantissa * 2 ^ exponent`. -/
structure Binary where
  negative : Bool
  mantissa : Nat
  exponent : Int
deriving DecidableEq, Repr

namespace Binary

/-- The sign, mantissa and exponent of a 64-bit pattern; NaN and the infinities have none. -/
def ofBits? (bits : UInt64) : Option Binary :=
  let negative : Bool := bits >>> 63 = 1
  let power := ((bits >>> 52) &&& 0x7FF).toNat
  let fraction := (bits &&& 0xFFFFFFFFFFFFF).toNat
  if power = 0x7FF then none
  else if power = 0 then some ⟨negative, fraction, -1074⟩
  else some ⟨negative, Nat.pow 2 52 + fraction, (power : Int) - 1075⟩

def ofFloat? (x : Float) : Option Binary :=
  ofBits? x.toBits

/-- `n` with the sign of the number. -/
def signed (b : Binary) (n : Nat) : Int :=
  if b.negative then -(n : Int) else n

/-- The value, if it is an integer. -/
def whole? (b : Binary) : Option Int :=
  if 0 ≤ b.exponent then
    some (b.signed (b.mantissa * Nat.pow 2 b.exponent.toNat))
  else
    let unit := Nat.pow 2 (-b.exponent).toNat
    if b.mantissa % unit = 0 then some (b.signed (b.mantissa / unit)) else none

/-- The greatest integer that is not above the value. -/
def floor (b : Binary) : Int :=
  if 0 ≤ b.exponent then
    b.signed (b.mantissa * Nat.pow 2 b.exponent.toNat)
  else
    (b.signed b.mantissa).fdiv (Nat.pow 2 (-b.exponent).toNat)

end Binary

/-- The float `2 ^ e`, for the exponents from `-1074` to `1023` that have one. -/
def powerOfTwo (e : Int) : Float :=
  if -1022 ≤ e then Float.ofBits ((e + 1023).toNat.toUInt64 <<< 52)
  else Float.ofBits (1 <<< (e + 1074).toNat.toUInt64)

/-- What is left of `a` after taking away `b` a whole number of times, rounded toward zero: it has
the sign of `a` and is smaller than `b`. The result is exact. Nothing is left to say, so the answer
is NaN, when `a` is infinite, `b` is zero, or either is NaN. -/
def remainder (a b : Float) : Float :=
  match Binary.ofFloat? a, Binary.ofFloat? b with
  | some x, some y =>
    if y.mantissa = 0 then 0.0 / 0.0
    else
      let e := min x.exponent y.exponent
      let left := (x.mantissa * Nat.pow 2 (x.exponent - e).toNat) %
        (y.mantissa * Nat.pow 2 (y.exponent - e).toNat)
      let size := Float.ofNat left * powerOfTwo e
      if x.negative then -size else size
  | some _, none => if b.isNaN then b else a
  | none, _ => 0.0 / 0.0

end GotoScript.Number
