import GotoScript.Proofs.Running.Folding
import Mathlib.Data.Int.ModEq
import Mathlib.Data.Rat.Floor

/-!
# Integer arithmetic

Integers are words of 64 bits. Sums, differences and products are the exact ones, wrapped. A division takes the
quotient and the remainder that are rounded toward zero and corrects both by the signs.

* `fdiv_eq_corrected`, `fmod_eq_corrected` : the corrections, on integers of any size;
* `Floors a b q r` : `q` and `r` come from a division that rounds down, `floors_floorDiv` : as `floorDiv` and
  `floorRem` do;
* `quotient_correction_fits`, `remainder_correction_fits` : a correction never leaves the range of words;
* `Expr.Adds`, `Expr.exists_folds_of_adds` : sums and differences one after another;
* `integers_wrap_once` : all operations, and chains of any length.
-/

namespace GotoScript

/-! ## Rounding down -/

theorem floor_div_eq_fdiv (a b : Int) : ⌊(a : ℚ) / b⌋ = a.fdiv b := by
  have hnat (a : Int) (d : Nat) : ⌊(a : ℚ) / (d : Int)⌋ = a.fdiv d := by
    rw [Int.fdiv_eq_ediv_of_nonneg a (Int.natCast_nonneg d), Int.cast_natCast]
    exact Rat.floor_intCast_div_natCast a d
  obtain ⟨d, rfl | rfl⟩ := Int.eq_nat_or_neg b
  · exact hnat a d
  · rw [← Int.neg_fdiv_neg, Int.neg_neg, ← hnat, Int.cast_neg, Int.cast_neg, neg_div, div_neg]

/-- Where the signs differ, rounding down takes one more off the quotient. -/
theorem fdiv_eq_corrected {a b : Int} (hb : b ≠ 0) :
    a.fdiv b = if ¬ b ∣ a ∧ (a < 0) ≠ (b < 0) then a.tdiv b - 1 else a.tdiv b := by
  rw [Int.fdiv_eq_tdiv]
  by_cases hdvd : b ∣ a
  · simp [hdvd]
  · simp only [hdvd, not_false_eq_true, true_and, if_false, ne_eq, eq_iff_iff]
    rcases Int.lt_or_gt_of_ne hb with hb | hb
    · rw [Int.sign_eq_neg_one_of_neg hb]
      split_ifs <;> omega
    · rw [Int.sign_eq_one_of_pos hb]
      split_ifs <;> omega

/-- The remainder gets the divisor that the quotient lost. -/
theorem fmod_eq_corrected (a b : Int) :
    a.fmod b = if a.tmod b ≠ 0 ∧ (a.tmod b < 0) ≠ (b < 0) then a.tmod b + b else a.tmod b := by
  rw [Int.fmod_eq_tmod]
  by_cases hdvd : b ∣ a
  · simp [hdvd, Int.tmod_eq_zero_of_dvd hdvd]
  · have hne : a.tmod b ≠ 0 := fun h => hdvd (Int.dvd_iff_tmod_eq_zero.2 h)
    have hneg : a.tmod b < 0 ↔ a < 0 := by
      rw [← Int.sign_eq_neg_one_iff_neg, Int.sign_tmod, if_neg hdvd, Int.sign_eq_neg_one_iff_neg]
    simp only [hdvd, hneg, hne, ne_eq, not_false_eq_true, true_and, eq_iff_iff, if_false]
    split_ifs <;> omega

theorem fmod_bounds {a b : Int} (hb : b ≠ 0) :
    (0 < b ∧ 0 ≤ a.fmod b ∧ a.fmod b < b) ∨ (b < 0 ∧ b < a.fmod b ∧ a.fmod b ≤ 0) := by
  have hsmaller : (a.tmod b).natAbs < b.natAbs := by
    rw [Int.natAbs_tmod]
    exact Nat.mod_lt _ (by omega)
  rw [fmod_eq_corrected]
  simp only [ne_eq, eq_iff_iff]
  split_ifs <;> omega

theorem sign_fmod {a b : Int} (hb : b ≠ 0) (h : a.fmod b ≠ 0) : (a.fmod b).sign = b.sign := by
  rcases fmod_bounds (a := a) hb with ⟨hpos, hle, -⟩ | ⟨hneg, -, hle⟩
  · rw [Int.sign_eq_one_of_pos hpos, Int.sign_eq_one_of_pos (by omega)]
  · rw [Int.sign_eq_neg_one_of_neg hneg, Int.sign_eq_neg_one_of_neg (by omega)]

/-! ## Words -/

/-- The integers that are words. -/
def wordRange : Set Int :=
  {n | Int64.minValue.toInt ≤ n ∧ n ≤ Int64.maxValue.toInt}

theorem toInt_mem_wordRange (a : Int64) : a.toInt ∈ wordRange :=
  ⟨a.minValue_le_toInt, a.toInt_le⟩

theorem toInt_ofInt_of_mem {n : Int} (h : n ∈ wordRange) : (Int64.ofInt n).toInt = n := by
  obtain ⟨hlo, hhi⟩ := h
  rw [Int64.toInt_minValue] at hlo
  rw [Int64.toInt_maxValue] at hhi
  exact Int64.toInt_ofInt_of_le hlo (Int.lt_of_le_sub_one hhi)

theorem toInt_ofInt_modEq (n : Int) : (Int64.ofInt n).toInt ≡ n [ZMOD Int64.size] := by
  rw [Int64.toInt_ofInt]
  exact Int.bmod_emod

/-- Division of `a` by `b`, rounded down. The quotient is wrapped, the remainder exact. -/
structure Floors (a b q r : Int64) : Prop where
  quotient : q = .ofInt ⌊(a.toInt : ℚ) / b.toInt⌋
  remainder : r.toInt = a.toInt - b.toInt * ⌊(a.toInt : ℚ) / b.toInt⌋
  sign : r = 0 ∨ r.toInt.sign = b.toInt.sign
  smaller : r.toInt.natAbs < b.toInt.natAbs
  identity : a.toInt ≡ q.toInt * b.toInt + r.toInt [ZMOD Int64.size]

section

variable {a b : Int64}

theorem toInt_ne_zero_iff : a.toInt ≠ 0 ↔ a ≠ 0 :=
  not_congr (Int64.toInt_inj (y := 0))

theorem neg_iff_toInt_neg : a < 0 ↔ a.toInt < 0 :=
  Int64.lt_iff_toInt_lt

theorem mod_ne_zero_iff : a % b ≠ 0 ↔ ¬ b.toInt ∣ a.toInt := by
  rw [← toInt_ne_zero_iff, Int64.toInt_mod, Int.dvd_iff_tmod_eq_zero, ne_eq]

theorem div_eq_ofInt (a b : Int64) : a / b = .ofInt (a.toInt.tdiv b.toInt) := by
  rw [eq_comm, Int64.ofInt_eq_iff_bmod_eq_toInt, Int64.toInt_div]

theorem floorDiv_eq_ofInt (a : Int64) (hb : b ≠ 0) : floorDiv a b = .ofInt (a.toInt.fdiv b.toInt) := by
  rw [fdiv_eq_corrected (toInt_ne_zero_iff.2 hb), apply_ite Int64.ofInt, Int64.ofInt_sub, ← div_eq_ofInt]
  simp only [floorDiv, mod_ne_zero_iff, neg_iff_toInt_neg]
  rfl

/-- A quotient is corrected only where the divisor is at least two in size, so it is far from both ends. -/
theorem quotient_correction_fits (hb : b ≠ 0) (h : a % b ≠ 0) : (a / b).toInt - 1 ∈ wordRange := by
  have hdvd := mod_ne_zero_iff.1 h
  have hsize : 2 ≤ b.toInt.natAbs := by
    have hzero := toInt_ne_zero_iff.2 hb
    have hone : b.toInt.natAbs ≠ 1 := fun hone => hdvd (Int.natAbs_dvd.1 (by rw [hone]; exact one_dvd _))
    omega
  have hle : (a.toInt.tdiv b.toInt).natAbs ≤ a.toInt.natAbs / 2 := by
    rw [Int.natAbs_tdiv]
    exact Nat.div_le_div_left hsize (by decide)
  obtain ⟨hlo, hhi⟩ := toInt_mem_wordRange a
  have hmin : Int64.minValue.toInt = -9223372036854775808 := by decide
  have hmax : Int64.maxValue.toInt = 9223372036854775807 := by decide
  have hexact : (a / b).toInt = a.toInt.tdiv b.toInt := by
    rw [div_eq_ofInt]
    apply toInt_ofInt_of_mem
    constructor <;> omega
  rw [hexact]
  constructor <;> omega

/-- A remainder is corrected only where the divisor has the other sign. -/
theorem remainder_correction_fits (h : (a % b < 0) ≠ (b < 0)) : (a % b).toInt + b.toInt ∈ wordRange := by
  obtain ⟨hlo, hhi⟩ := toInt_mem_wordRange (a % b)
  obtain ⟨hlo', hhi'⟩ := toInt_mem_wordRange b
  rw [neg_iff_toInt_neg, neg_iff_toInt_neg, ne_eq, eq_iff_iff] at h
  constructor <;> omega

theorem toInt_floorRem (a b : Int64) : (floorRem a b).toInt = a.toInt.fmod b.toInt := by
  rw [fmod_eq_corrected]
  simp only [← Int64.toInt_mod, toInt_ne_zero_iff, ← neg_iff_toInt_neg]
  unfold floorRem
  dsimp only
  split
  · next h =>
    rw [← toInt_ofInt_of_mem (remainder_correction_fits h.2), Int64.ofInt_add, Int64.ofInt_toInt, Int64.ofInt_toInt]
  · rfl

theorem Value.apply_div_int (a : Int64) (hb : b ≠ 0) :
    (Value.int a).apply .div (.int b) = .ok (.int (floorDiv a b)) := by
  simp only [apply, typedOperation, intOperation, if_neg hb]
  rfl

theorem Value.apply_rem_int (a : Int64) (hb : b ≠ 0) :
    (Value.int a).apply .rem (.int b) = .ok (.int (floorRem a b)) := by
  simp only [apply, typedOperation, intOperation, if_neg hb]
  rfl

theorem floors_floorDiv (a : Int64) (hb : b ≠ 0) : Floors a b (floorDiv a b) (floorRem a b) := by
  have hb' := toInt_ne_zero_iff.2 hb
  have hfloor := floor_div_eq_fdiv a.toInt b.toInt
  have hquotient := floorDiv_eq_ofInt a hb
  have hremainder := toInt_floorRem a b
  constructor
  case quotient => rw [hfloor, hquotient]
  case remainder => rw [hfloor, hremainder, Int.fmod_def]
  case sign =>
    by_cases h : floorRem a b = 0
    · exact .inl h
    · refine .inr ?_
      rw [hremainder]
      exact sign_fmod hb' (hremainder ▸ toInt_ne_zero_iff.2 h)
  case smaller =>
    rw [hremainder]
    rcases fmod_bounds (a := a.toInt) hb' with h | h <;> omega
  case identity =>
    have hmul := (toInt_ofInt_modEq (a.toInt.fdiv b.toInt)).mul_right b.toInt
    have hadd := hmul.add_right (a.toInt.fmod b.toInt)
    rw [Int.fdiv_mul_add_fmod] at hadd
    rw [hquotient, hremainder]
    exact hadd.symm

end

/-! ## Chains -/

namespace Expr

section

variable (host : Host) (env : Environment)

/-- What an operator and an operand add to a sum. -/
inductive Adds : Token × Expr → Int → Prop where
  | plus {t : Token} {e : Expr} {n : Int64} (ht : t.text = "+") (h : e.value host env = .ok (.int n)) :
    Adds (t, e) n.toInt
  | minus {t : Token} {e : Expr} {n : Int64} (ht : t.text = "-") (h : e.value host env = .ok (.int n)) :
    Adds (t, e) (-n.toInt)

end

variable {host : Host} {env : Environment}

theorem Adds.exists_step {t : Token} {e : Expr} {term : Int} (h : Adds host env (t, e) term) (sum : Int) :
    ∃ op right, Operator.ofText? t.text = some op ∧ ¬ (Value.int (.ofInt sum)).settles op ∧
      e.value host env = .ok right ∧
      (Value.int (.ofInt sum)).apply op right = .ok (.int (.ofInt (sum + term))) := by
  cases h with
  | @plus _ _ n ht h =>
      refine ⟨.add, .int n, ht ▸ Operator.ofText?_text .add, Bool.false_ne_true, h, ?_⟩
      rw [Int64.ofInt_add, Int64.ofInt_toInt]
      rfl
  | @minus _ _ n ht h =>
      refine ⟨.sub, .int n, ht ▸ Operator.ofText?_text .sub, Bool.false_ne_true, h, ?_⟩
      rw [← Int.sub_eq_add_neg, Int64.ofInt_sub, Int64.ofInt_toInt]
      rfl

/-- Along a chain of sums and differences the exact sum is wrapped at every step, which wraps it once. -/
theorem exists_folds_of_adds {links : List (Token × Expr)} {terms : List Int}
    (h : List.Forall₂ (Adds host env) links terms) (sum : Int) :
    ∃ operators added, Operator.ofTokens (links.map Prod.fst) = .ok operators ∧
      Folds host env (.int (.ofInt sum)) (operators.zip (links.map Prod.snd))
        (.int (.ofInt (sum + terms.sum))) added := by
  induction h generalizing sum with
  | nil =>
      refine ⟨[], [], rfl, ?_⟩
      rw [List.sum_nil, Int.add_zero]
      exact .done
  | @cons link term links terms hlink _ ih =>
      obtain ⟨op, right, hop, hs, hright, hnext⟩ := hlink.exists_step sum
      obtain ⟨operators, added, hops, hfolds⟩ := ih (sum + term)
      rw [Int.add_assoc, ← List.sum_cons] at hfolds
      exact ⟨op :: operators, _, Operator.ofTokens_cons_eq_ok_iff.2 ⟨op, operators, hop, hops, rfl⟩,
        .join hs hright hnext hfolds⟩

theorem value_chain_of_adds {first : Expr} {n : Int64} {links : List (Token × Expr)} {terms : List Int}
    (hfirst : first.value host env = .ok (.int n)) (h : List.Forall₂ (Adds host env) links terms) :
    (Expr.chain (first :: links.map Prod.snd) (links.map Prod.fst)).value host env =
      .ok (.int (.ofInt (n.toInt + terms.sum))) := by
  obtain ⟨operators, added, hops, hfolds⟩ := exists_folds_of_adds h n.toInt
  rw [Int64.ofInt_toInt] at hfolds
  have hlength := Operator.length_of_ofTokens hops
  exact (eq_of_yields (Evaluates.of_folds hops hfirst hfolds (by simp [hlength])).yields).1

end Expr

/-- Sums, differences and products are exact and then wrapped. Division rounds down, and its corrections stay in
range. A chain of sums and differences, however long, is the exact sum, wrapped once. -/
theorem integers_wrap_once :
    (∀ a b : Int64,
      (Value.int a).apply .add (.int b) = .ok (.int (.ofInt (a.toInt + b.toInt))) ∧
      (Value.int a).apply .sub (.int b) = .ok (.int (.ofInt (a.toInt - b.toInt))) ∧
      (Value.int a).apply .mul (.int b) = .ok (.int (.ofInt (a.toInt * b.toInt))) ∧
      (b ≠ 0 →
        (∃ q r, (Value.int a).apply .div (.int b) = .ok (.int q) ∧
          (Value.int a).apply .rem (.int b) = .ok (.int r) ∧ Floors a b q r) ∧
        (a % b ≠ 0 ∧ (a < 0) ≠ (b < 0) → (a / b).toInt - 1 ∈ wordRange) ∧
        (a % b ≠ 0 ∧ (a % b < 0) ≠ (b < 0) → (a % b).toInt + b.toInt ∈ wordRange))) ∧
    ∀ (host : Host) (env : Environment) (first : Expr) (n : Int64) (links : List (Token × Expr)) (terms : List Int),
      first.value host env = .ok (.int n) → List.Forall₂ (Expr.Adds host env) links terms →
        (Expr.chain (first :: links.map Prod.snd) (links.map Prod.fst)).value host env =
          .ok (.int (.ofInt (n.toInt + terms.sum))) := by
  refine ⟨fun a b => ⟨?_, ?_, ?_, fun hb => ⟨⟨floorDiv a b, floorRem a b, ?_⟩, ?_, ?_⟩⟩, ?_⟩
  · rw [Int64.ofInt_add, Int64.ofInt_toInt, Int64.ofInt_toInt]
    rfl
  · rw [Int64.ofInt_sub, Int64.ofInt_toInt, Int64.ofInt_toInt]
    rfl
  · rw [Int64.ofInt_mul, Int64.ofInt_toInt, Int64.ofInt_toInt]
    rfl
  · exact ⟨Value.apply_div_int a hb, Value.apply_rem_int a hb, floors_floorDiv a hb⟩
  · exact fun h => quotient_correction_fits hb h.1
  · exact fun h => remainder_correction_fits h.2
  · intro host env first n links terms hfirst h
    exact Expr.value_chain_of_adds hfirst h

/-- The one quotient that is wrapped, and a chain whose first sum is too great for a word. -/
theorem integers_wrap_once_extremes :
    Floors Int64.minValue (-1) Int64.minValue 0 ∧
      ∀ host env plus minus, plus.text = "+" → minus.text = "-" →
        (Expr.chain [.int Int64.maxValue, .int 1, .int 2] [plus, minus]).value host env =
          .ok (.int 9223372036854775806) := by
  obtain ⟨hpairs, hchains⟩ := integers_wrap_once
  constructor
  · obtain ⟨-, -, -, hdivision⟩ := hpairs Int64.minValue (-1)
    obtain ⟨⟨q, r, hq, hr, hfloors⟩, -, -⟩ := hdivision (by decide)
    obtain rfl : Int64.minValue = q := Value.int.inj (Except.ok.inj hq)
    obtain rfl : 0 = r := Value.int.inj (Except.ok.inj hr)
    exact hfloors
  · intro host env plus minus hplus hminus
    have hterms : List.Forall₂ (Expr.Adds host env) [(plus, .int 1), (minus, .int 2)]
        [Int64.toInt 1, -Int64.toInt 2] :=
      .cons (.plus hplus rfl) (.cons (.minus hminus rfl) .nil)
    have hsum : Int64.ofInt (Int64.maxValue.toInt + [Int64.toInt 1, -Int64.toInt 2].sum) = 9223372036854775806 := by
      decide
    have hchain := hchains host env (.int Int64.maxValue) Int64.maxValue _ _ rfl hterms
    rw [hsum] at hchain
    exact hchain

end GotoScript
