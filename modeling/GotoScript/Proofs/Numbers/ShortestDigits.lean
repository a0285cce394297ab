import GotoScript.Number.Decimal
import Mathlib.Algebra.Order.Field.Power
import Mathlib.Tactic.FieldSimp
import Mathlib.Tactic.Linarith
import Mathlib.Tactic.Positivity
import Mathlib.Tactic.Ring

/-!
# The digits of a float

The reals that round to a float make an interval around it, and the intervals of two floats have no
number in common. The digits chosen for a float lie in its interval, so they tell it from all others:

* `Binary.Normal` : how a mantissa and an exponent come out of a bit pattern, each number in one way;
* `Binary.Rounds b v` : the real `v` rounds to `b`, as `readsBack` decides it for decimals;
* `Binary.Rounds.unique` : a number rounds to one float only;
* `Binary.shortest_value_inj` : the digits chosen have different values for different floats;
* `Binary.ofFloat?_inj` : a finite float is given by its sign, mantissa and exponent.
-/

namespace GotoScript.Number

def Decimal.value (d : Decimal) : ℚ :=
  d.digits * (10 : ℚ) ^ d.exponent

namespace Binary

/-- The value without its sign. -/
def value (b : Binary) : ℚ :=
  b.mantissa * (2 : ℚ) ^ b.exponent

/-- The mantissa has 53 bits at most, and fewer only with the least exponent. -/
structure Normal (b : Binary) : Prop where
  exponent_ge : -1074 ≤ b.exponent
  mantissa_lt : b.mantissa < Nat.pow 2 53
  mantissa_ge : b.exponent ≠ -1074 → Nat.pow 2 52 ≤ b.mantissa

end Binary

/-! ## Comparing exactly -/

theorem zpow_mul_pow_toNat_neg {x : ℚ} (hx : x ≠ 0) (i : ℤ) : x ^ i * x ^ (-i).toNat = x ^ i.toNat := by
  rw [← zpow_natCast x (-i).toNat, ← zpow_natCast x i.toNat, ← zpow_add₀ hx]
  congr 1
  omega

section

variable (a : Nat) (i : Int) (n : Nat) (j : Int)

/-- Both sides of the comparison are the numbers compared, brought to a common scale. -/
theorem exists_scale : ∃ k : ℚ, 0 < k ∧
    ((a * Nat.pow 10 i.toNat * Nat.pow 2 (-j).toNat : Nat) : ℚ) = a * (10 : ℚ) ^ i * k ∧
    ((n * Nat.pow 2 j.toNat * Nat.pow 10 (-i).toNat : Nat) : ℚ) = n * (2 : ℚ) ^ j * k := by
  refine ⟨(10 : ℚ) ^ (-i).toNat * (2 : ℚ) ^ (-j).toNat, by positivity, ?_, ?_⟩
  · have h := zpow_mul_pow_toNat_neg (x := 10) (by norm_num) i
    simp only [Nat.pow_eq, Nat.cast_mul, Nat.cast_pow, Nat.cast_ofNat, ← h]
    ring
  · have h := zpow_mul_pow_toNat_neg (x := 2) (by norm_num) j
    simp only [Nat.pow_eq, Nat.cast_mul, Nat.cast_pow, Nat.cast_ofNat, ← h]
    ring

theorem compareScaled_eq_lt_iff :
    compareScaled a i n j = .lt ↔ a * (10 : ℚ) ^ i < n * (2 : ℚ) ^ j := by
  obtain ⟨k, hk, hleft, hright⟩ := exists_scale a i n j
  rw [compareScaled, Nat.compare_eq_lt, ← Nat.cast_lt (α := ℚ), hleft, hright, mul_lt_mul_iff_left₀ hk]

theorem compareScaled_eq_gt_iff :
    compareScaled a i n j = .gt ↔ n * (2 : ℚ) ^ j < a * (10 : ℚ) ^ i := by
  obtain ⟨k, hk, hleft, hright⟩ := exists_scale a i n j
  rw [compareScaled, Nat.compare_eq_gt, ← Nat.cast_lt (α := ℚ), hleft, hright, mul_lt_mul_iff_left₀ hk]

theorem compareScaled_eq_eq_iff :
    compareScaled a i n j = .eq ↔ a * (10 : ℚ) ^ i = n * (2 : ℚ) ^ j := by
  obtain ⟨k, hk, hleft, hright⟩ := exists_scale a i n j
  rw [compareScaled, Nat.compare_eq_eq, ← Nat.cast_inj (R := ℚ), hleft, hright, mul_left_inj' hk.ne']

end

namespace Binary

/-! ## What rounds to a float -/

/-- A quarter of the distance to the next float above. -/
def quarter (b : Binary) : ℚ :=
  (2 : ℚ) ^ (b.exponent - 2)

/-- Where the interval of a float starts and ends, in quarters. -/
def lowEnd (b : Binary) : Nat :=
  if b.narrowBelow then 4 * b.mantissa - 1 else 4 * b.mantissa - 2

def highEnd (b : Binary) : Nat :=
  4 * b.mantissa + 2

/-- The number rounds to the float: it lies between the ends, or at one of them if the mantissa is even. -/
structure Rounds (b : Binary) (v : ℚ) : Prop where
  low_le : b.lowEnd * b.quarter ≤ v
  le_high : v ≤ b.highEnd * b.quarter
  even_of_low : b.lowEnd * b.quarter = v → b.mantissa % 2 = 0
  even_of_high : v = b.highEnd * b.quarter → b.mantissa % 2 = 0

theorem quarter_pos (b : Binary) : 0 < b.quarter := by
  unfold quarter
  positivity

theorem rounds_of_readsBack {b : Binary} {d : Decimal} (h : b.readsBack d) : b.Rounds d.value := by
  unfold readsBack at h
  simp only [Bool.decide_and, Bool.decide_or, Bool.and_eq_true, Bool.or_eq_true, decide_eq_true_eq,
    compareScaled_eq_lt_iff, compareScaled_eq_gt_iff, compareScaled_eq_eq_iff] at h
  obtain ⟨hlow, hhigh⟩ := h
  change b.lowEnd * b.quarter < d.value ∨ b.mantissa % 2 = 0 ∧ d.value = b.lowEnd * b.quarter at hlow
  change d.value < b.highEnd * b.quarter ∨ b.mantissa % 2 = 0 ∧ d.value = b.highEnd * b.quarter at hhigh
  refine ⟨?_, ?_, fun heq => ?_, fun heq => ?_⟩
  · exact hlow.elim le_of_lt fun h => h.2.ge
  · exact hhigh.elim le_of_lt fun h => h.2.le
  · exact hlow.elim (fun hlt => absurd heq hlt.ne) fun h => h.1
  · exact hhigh.elim (fun hlt => absurd heq hlt.ne) fun h => h.1

/-- A float that is not zero rounds to itself, at neither end. -/
theorem rounds_value {b : Binary} (h : b.mantissa ≠ 0) : b.Rounds b.value := by
  have hpos := b.quarter_pos
  have hvalue : b.value = ((4 * b.mantissa : Nat) : ℚ) * b.quarter := by
    unfold value quarter
    rw [zpow_sub₀ (by norm_num)]
    push_cast
    ring
  have hlow : b.lowEnd < 4 * b.mantissa := by
    unfold lowEnd
    split <;> omega
  have hhigh : 4 * b.mantissa < b.highEnd := by
    unfold highEnd
    omega
  have hlow' : b.lowEnd * b.quarter < b.value := by
    rw [hvalue]
    exact mul_lt_mul_of_pos_right (Nat.cast_lt.2 hlow) hpos
  have hhigh' : b.value < b.highEnd * b.quarter := by
    rw [hvalue]
    exact mul_lt_mul_of_pos_right (Nat.cast_lt.2 hhigh) hpos
  exact ⟨hlow'.le, hhigh'.le, fun heq => absurd heq hlow'.ne, fun heq => absurd heq hhigh'.ne⟩

theorem Rounds.pos {b : Binary} {v : ℚ} (h : b.Rounds v) (hb : b.mantissa ≠ 0) : 0 < v := by
  have hlow : 0 < b.lowEnd := by
    unfold lowEnd
    split <;> omega
  exact lt_of_lt_of_le (mul_pos (Nat.cast_pos.2 hlow) b.quarter_pos) h.low_le

/-! ## The intervals have nothing in common -/

section

variable {b c : Binary} {v : ℚ} (hb : b.Rounds v) (hc : c.Rounds v)
include hb hc

/-- Floats of one exponent: the intervals meet at most in an end, and one of two neighbours is odd. -/
theorem Rounds.mantissa_le_of_exponent_eq (he : b.exponent = c.exponent) : c.mantissa ≤ b.mantissa := by
  by_contra hlt
  rw [not_le] at hlt
  have hquarter : b.quarter = c.quarter := by rw [quarter, quarter, he]
  have hends : (b.highEnd : ℚ) ≤ c.lowEnd := by
    have hle : b.highEnd ≤ c.lowEnd := by
      unfold highEnd lowEnd
      split <;> omega
    exact Nat.cast_le.2 hle
  have hle := mul_le_mul_of_nonneg_right hends b.quarter_pos.le
  have hlow := hc.low_le
  rw [← hquarter] at hlow
  -- the number is the end of the one interval and the start of the other
  have hhigh : v = b.highEnd * b.quarter := le_antisymm hb.le_high (hle.trans hlow)
  have hstart : c.lowEnd * c.quarter = v := by
    rw [← hquarter] at *
    exact le_antisymm hlow (hb.le_high.trans hle)
  have heven := hb.even_of_high hhigh
  have heven' := hc.even_of_low hstart
  have hsame : b.highEnd = c.lowEnd := by
    rw [← hquarter] at hstart
    have hmul := hstart.trans hhigh
    exact Nat.cast_injective (mul_right_cancel₀ b.quarter_pos.ne' hmul.symm)
  unfold highEnd lowEnd at hsame
  split at hsame <;> omega

/-- Floats of different exponents: the greatest mantissa is odd, and the interval of the power of two
above it starts where the interval of the greatest mantissa ends. -/
theorem Rounds.exponent_le (hnb : b.Normal) (hnc : c.Normal) : c.exponent ≤ b.exponent := by
  by_contra hlt
  rw [not_le] at hlt
  have hge := hnc.mantissa_ge (by have := hnb.exponent_ge; omega)
  have hmax := hnb.mantissa_lt
  have htwice : Nat.pow 2 53 = 2 * Nat.pow 2 52 := rfl
  have hquarter : 2 * b.quarter ≤ c.quarter := by
    unfold quarter
    rw [mul_comm, ← zpow_add_one₀ (by norm_num)]
    exact zpow_le_zpow_right₀ (by norm_num) (by omega)
  have hlow : 8 * Nat.pow 2 52 - 2 ≤ 2 * c.lowEnd := by
    unfold lowEnd narrowBelow
    split
    · omega
    · next hnarrow =>
      have hne : c.mantissa ≠ Nat.pow 2 52 := by
        intro heq
        refine hnarrow ?_
        have hexp : c.exponent > -1074 := by
          have := hnb.exponent_ge
          omega
        simp [heq, hexp]
      omega
  have hbelow : (2 * c.lowEnd : ℚ) * b.quarter ≤ v := by
    calc (2 * c.lowEnd : ℚ) * b.quarter = c.lowEnd * (2 * b.quarter) := by ring
      _ ≤ c.lowEnd * c.quarter := mul_le_mul_of_nonneg_left hquarter (Nat.cast_nonneg _)
      _ ≤ v := hc.low_le
  have hends : 2 * c.lowEnd ≤ b.highEnd := by
    have hmul := hbelow.trans hb.le_high
    have hcast := le_of_mul_le_mul_right hmul b.quarter_pos
    exact_mod_cast hcast
  have hmantissa : b.highEnd = 2 * c.lowEnd ∧ b.mantissa = Nat.pow 2 53 - 1 := by
    unfold highEnd at hends ⊢
    omega
  have hhigh : v = b.highEnd * b.quarter := by
    refine le_antisymm hb.le_high ?_
    rw [hmantissa.1, Nat.cast_mul, Nat.cast_ofNat]
    exact hbelow
  have heven := hb.even_of_high hhigh
  rw [hmantissa.2] at heven
  exact absurd heven (by decide)

end

/-- A number rounds to one float only. -/
theorem Rounds.unique {b c : Binary} {v : ℚ} (hb : b.Rounds v) (hc : c.Rounds v) (hnb : b.Normal)
    (hnc : c.Normal) : b.mantissa = c.mantissa ∧ b.exponent = c.exponent := by
  have he := le_antisymm (hc.exponent_le hb hnc hnb) (hb.exponent_le hc hnb hnc)
  refine ⟨le_antisymm ?_ ?_, he⟩
  · exact hc.mantissa_le_of_exponent_eq hb he.symm
  · exact hb.mantissa_le_of_exponent_eq hc he

end Binary

/-! ## The digits chosen -/

theorem Decimal.value_stripZeros (d : Decimal) : d.stripZeros.value = d.value := by
  fun_induction Decimal.stripZeros d with
  | case1 d h => simp [value, h]
  | case2 d hne hzero ih =>
    rw [ih]
    have hdigits : d.digits = d.digits / 10 * 10 := by omega
    unfold value
    dsimp only
    rw [zpow_add_one₀ (by norm_num)]
    nth_rewrite 2 [hdigits]
    push_cast
    ring
  | case3 d => rfl

namespace Binary

theorem readsBack_of_onGrid? {b : Binary} {tie : Tie} {exponent : Int} {d : Decimal}
    (h : b.onGrid? tie exponent = some d) : b.readsBack d := by
  unfold onGrid? at h
  dsimp only at h
  split at h
  · cases h
  · next hlower _ =>
    cases h
    exact hlower
  · next _ hupper =>
    cases h
    exact hupper
  · next hlower hupper =>
    split at h
    · cases h
      exact hlower
    · cases h
      exact hupper
    · split at h
      · cases h
        exact hupper
      · cases h
        split
        · exact hlower
        · exact hupper

theorem value_exact (b : Binary) : b.exact.value = b.value := by
  unfold exact
  split
  · next h =>
    obtain ⟨n, hn⟩ := Int.eq_ofNat_of_zero_le h
    simp [Decimal.value, value, hn]
  · next h =>
    obtain ⟨n, hn⟩ : ∃ n : Nat, b.exponent = -(n : Int) := ⟨(-b.exponent).toNat, by omega⟩
    simp only [Decimal.value, value, hn, Int.neg_neg, Int.toNat_natCast, Nat.pow_eq, Nat.cast_mul, Nat.cast_pow,
      Nat.cast_ofNat, zpow_neg, zpow_natCast]
    rw [mul_assoc, show (10 : ℚ) = 5 * 2 by norm_num, mul_pow]
    field_simp

theorem rounds_shortest {b : Binary} (h : b.mantissa ≠ 0) (tie : Tie) :
    b.Rounds (b.shortest tie).value := by
  unfold shortest
  rw [if_neg h]
  dsimp only
  split
  · next d hd =>
    obtain ⟨n, -, hgrid⟩ := List.exists_of_findSome?_eq_some hd
    rw [Decimal.value_stripZeros]
    exact rounds_of_readsBack (readsBack_of_onGrid? hgrid)
  · rw [Decimal.value_stripZeros, value_exact]
    exact rounds_value h

theorem shortest_value_of_zero {b : Binary} (h : b.mantissa = 0) (tie : Tie) : (b.shortest tie).value = 0 := by
  unfold shortest
  rw [if_pos h]
  simp [Decimal.value]

theorem shortest_value_ne_zero {b : Binary} (h : b.mantissa ≠ 0) (tie : Tie) : (b.shortest tie).value ≠ 0 :=
  ((rounds_shortest h tie).pos h).ne'

/-- Different floats get digits of different value. -/
theorem shortest_value_inj {b c : Binary} (hb : b.Normal) (hc : c.Normal) {tie : Tie}
    (h : (b.shortest tie).value = (c.shortest tie).value) :
    b.mantissa = c.mantissa ∧ b.exponent = c.exponent := by
  have hleast {d : Binary} (hd : d.Normal) (hzero : d.mantissa = 0) : d.exponent = -1074 := by
    by_contra hne
    have hge := hd.mantissa_ge hne
    rw [hzero] at hge
    exact absurd hge (by decide)
  by_cases hbz : b.mantissa = 0
  · by_cases hcz : c.mantissa = 0
    · exact ⟨hbz.trans hcz.symm, (hleast hb hbz).trans (hleast hc hcz).symm⟩
    · exact absurd (h.symm.trans (shortest_value_of_zero hbz tie)) (shortest_value_ne_zero hcz tie)
  · by_cases hcz : c.mantissa = 0
    · exact absurd (h.trans (shortest_value_of_zero hcz tie)) (shortest_value_ne_zero hbz tie)
    · have hrounds := rounds_shortest hbz tie
      rw [h] at hrounds
      exact hrounds.unique (rounds_shortest hcz tie) hb hc

/-! ## Bit patterns -/

/-- The parts of a bit pattern as digits of a number. -/
structure Fields (bits : UInt64) (b : Binary) : Prop where
  sign : b.negative = decide (bits.toNat / Nat.pow 2 63 = 1)
  parts : (bits.toNat / Nat.pow 2 52 % Nat.pow 2 11 = 0 ∧ b.exponent = -1074 ∧
      b.mantissa = bits.toNat % Nat.pow 2 52) ∨
    (bits.toNat / Nat.pow 2 52 % Nat.pow 2 11 ≠ 0 ∧
      b.exponent = (bits.toNat / Nat.pow 2 52 % Nat.pow 2 11 : Nat) - 1075 ∧
      b.mantissa = Nat.pow 2 52 + bits.toNat % Nat.pow 2 52)

theorem fields_of_ofBits? {bits : UInt64} {b : Binary} (h : ofBits? bits = some b) : Fields bits b := by
  have hsign : (bits >>> 63 = 1) ↔ bits.toNat / Nat.pow 2 63 = 1 := by
    rw [← UInt64.toNat_inj, UInt64.toNat_shiftRight, Nat.shiftRight_eq_div_pow]
    rfl
  have hpower : ((bits >>> 52) &&& 0x7FF).toNat = bits.toNat / Nat.pow 2 52 % Nat.pow 2 11 := by
    rw [UInt64.toNat_and, UInt64.toNat_shiftRight, Nat.shiftRight_eq_div_pow]
    exact Nat.and_two_pow_sub_one_eq_mod _ 11
  have hfraction : (bits &&& 0xFFFFFFFFFFFFF).toNat = bits.toNat % Nat.pow 2 52 := by
    rw [UInt64.toNat_and]
    exact Nat.and_two_pow_sub_one_eq_mod _ 52
  unfold ofBits? at h
  simp only [hsign, hpower, hfraction] at h
  split at h
  · cases h
  split at h
  · next hzero =>
    cases h
    exact ⟨rfl, .inl ⟨hzero, rfl, rfl⟩⟩
  · next hne =>
    cases h
    exact ⟨rfl, .inr ⟨hne, rfl, rfl⟩⟩

theorem Fields.normal {bits : UInt64} {b : Binary} (h : Fields bits b) : b.Normal := by
  have hfraction := Nat.mod_lt bits.toNat (show 0 < Nat.pow 2 52 by decide)
  have htwice : Nat.pow 2 53 = 2 * Nat.pow 2 52 := rfl
  obtain ⟨-, ⟨_, he, hm⟩ | ⟨_, he, hm⟩⟩ := h <;> constructor <;> omega

theorem Fields.bits_eq {x y : UInt64} {b : Binary} (hx : Fields x b) (hy : Fields y b) : x = y := by
  rw [← UInt64.toNat_inj]
  have hltx := x.toNat_lt
  have hlty := y.toNat_lt
  have hsign := hx.sign.symm.trans hy.sign
  rw [decide_eq_decide] at hsign
  have hfx := Nat.mod_lt x.toNat (show 0 < Nat.pow 2 52 by decide)
  have hfy := Nat.mod_lt y.toNat (show 0 < Nat.pow 2 52 by decide)
  have hparts : x.toNat / Nat.pow 2 52 % Nat.pow 2 11 = y.toNat / Nat.pow 2 52 % Nat.pow 2 11 ∧
      x.toNat % Nat.pow 2 52 = y.toNat % Nat.pow 2 52 := by
    obtain ⟨-, ⟨hpx, hex, hmx⟩ | ⟨hpx, hex, hmx⟩⟩ := hx <;>
      obtain ⟨-, ⟨hpy, hey, hmy⟩ | ⟨hpy, hey, hmy⟩⟩ := hy <;>
      omega
  simp only [Nat.pow_eq, Nat.reducePow] at hsign hparts hltx hlty
  omega

/-- A float with a mantissa and an exponent is known from them and its sign. -/
theorem ofFloat?_inj {x y : Float} {b : Binary} (hx : ofFloat? x = some b) (hy : ofFloat? y = some b) :
    x = y := by
  have hbits := (fields_of_ofBits? hx).bits_eq (fields_of_ofBits? hy)
  obtain ⟨⟨bits, _⟩⟩ := x
  obtain ⟨⟨bits', _⟩⟩ := y
  obtain rfl : bits = bits' := hbits
  rfl

theorem normal_of_ofFloat? {x : Float} {b : Binary} (h : ofFloat? x = some b) : b.Normal :=
  (fields_of_ofBits? h).normal

end Binary

end GotoScript.Number
