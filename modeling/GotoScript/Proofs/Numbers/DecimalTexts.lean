import GotoScript.Number.Digits
import GotoScript.Proofs.Numbers.ShortestDigits
import Mathlib.Data.List.TakeWhile

/-!
# Texts of floats

Whatever its layout, the text of a float has the value of the digits chosen for it. So two finite floats
have the same text only if they are the same float.

* `pointValue`, `textValue` : what a text with a point and an exponent is worth;
* `Layout.textValue_decimalText` : laying digits out keeps their value;
* `Layout.text_inj` : a finite float is known from its text;
* `Layout.Marked`, `Layout.marked_text` : what such a text looks like.
-/

namespace GotoScript.Number

/-! ## The value of a text -/

/-- The value of digits with a point among them. -/
def pointValue (cs : List Char) : ℚ :=
  (natOfDigits (cs.filter (· ≠ '.')) : ℚ) / 10 ^ (cs.dropWhile (· ≠ '.')).tail.length

/-- The value of digits after a sign. -/
def signedValue : List Char → Int
  | '-' :: cs => -(natOfDigits cs : Int)
  | '+' :: cs => natOfDigits cs
  | cs => natOfDigits cs

/-- The value of digits, perhaps with a point, and perhaps with an exponent after them. -/
def textValue (cs : List Char) : ℚ :=
  pointValue (cs.takeWhile (· ≠ 'e')) * 10 ^ signedValue (cs.dropWhile (· ≠ 'e')).tail

theorem ne_of_isDigit {c d : Char} (hc : c.isDigit) (hd : d.isDigit = false) : c ≠ d := by
  rintro rfl
  rw [hd] at hc
  cases hc

section

variable {m whole fraction : List Char}

theorem pointValue_of_digits (h : ∀ c ∈ whole, c.isDigit) : pointValue whole = natOfDigits whole := by
  have hpoint : ∀ c ∈ whole, decide (c ≠ '.') = true := fun c hc =>
    decide_eq_true (ne_of_isDigit (h c hc) rfl)
  rw [pointValue, List.filter_eq_self.2 hpoint, List.dropWhile_eq_nil_iff.2 hpoint]
  simp

theorem pointValue_append (hw : ∀ c ∈ whole, c.isDigit) (hf : ∀ c ∈ fraction, c.isDigit) :
    pointValue (whole ++ '.' :: fraction) = natOfDigits (whole ++ fraction) / 10 ^ fraction.length := by
  have hpoint {cs : List Char} (h : ∀ c ∈ cs, c.isDigit) : ∀ c ∈ cs, decide (c ≠ '.') = true := fun c hc =>
    decide_eq_true (ne_of_isDigit (h c hc) rfl)
  rw [pointValue, List.filter_append, List.filter_cons_of_neg (by decide), List.filter_eq_self.2 (hpoint hw),
    List.filter_eq_self.2 (hpoint hf), List.dropWhile_append_of_pos (hpoint hw)]
  rfl

theorem textValue_of_not_mem (h : 'e' ∉ m) : textValue m = pointValue m := by
  have hall : ∀ c ∈ m, decide (c ≠ 'e') = true := fun c hc =>
    decide_eq_true fun he => h (he ▸ hc)
  rw [textValue, List.takeWhile_eq_self_iff.2 hall, List.dropWhile_eq_nil_iff.2 hall]
  simp [signedValue, natOfDigits]

theorem textValue_append (h : 'e' ∉ m) (power : List Char) :
    textValue (m ++ 'e' :: power) = pointValue m * 10 ^ signedValue power := by
  have hall : ∀ c ∈ m, decide (c ≠ 'e') = true := fun c hc =>
    decide_eq_true fun he => h (he ▸ hc)
  rw [textValue, List.takeWhile_append_of_pos hall, List.dropWhile_append_of_pos hall,
    List.takeWhile_cons_of_neg (by decide), List.dropWhile_cons_of_neg (by decide), List.append_nil]
  rfl

end

/-! ## Digits -/

theorem isDigit_of_mem_toDigits {n : Nat} : ∀ c ∈ Nat.toDigits 10 n, c.isDigit := fun _ hc =>
  Nat.isDigit_of_mem_toDigits (by decide) (by decide) hc

theorem natOfDigits_append_zeros (cs : List Char) (n : Nat) :
    natOfDigits (cs ++ List.replicate n '0') = 10 ^ n * natOfDigits cs := by
  rw [natOfDigits_eq, natOfDigits_eq, Nat.ofDigitChars_append, Nat.ofDigitChars_replicate_zero]

theorem natOfDigits_zeros_append (cs : List Char) (n : Nat) :
    natOfDigits (List.replicate n '0' ++ cs) = natOfDigits cs := by
  rw [natOfDigits_eq, natOfDigits_eq, Nat.ofDigitChars_append, Nat.ofDigitChars_replicate_zero, Nat.mul_zero]

theorem signedValue_of_digits {cs : List Char} (h : ∀ c ∈ cs, c.isDigit) : signedValue cs = natOfDigits cs := by
  unfold signedValue
  split
  · exact absurd (h '-' List.mem_cons_self) (by decide)
  · exact absurd (h '+' List.mem_cons_self) (by decide)
  · rfl

namespace Layout

variable (layout : Layout) (d : Decimal)

theorem toList_zeros (n : Nat) : (zeros n).toList = List.replicate n '0' := by
  rw [zeros, String.toList_ofList]

theorem isDigit_of_mem_zeros {n : Nat} : ∀ c ∈ List.replicate n '0', c.isDigit := by
  intro c hc
  rw [List.eq_of_mem_replicate hc]
  rfl

/-! ## Layouts keep the value -/

theorem textValue_of_digits {cs : List Char} (h : ∀ c ∈ cs, c.isDigit) : textValue cs = natOfDigits cs := by
  rw [textValue_of_not_mem fun he => absurd (h 'e' he) (by decide), pointValue_of_digits h]

theorem textValue_of_point {whole fraction : List Char} (hw : ∀ c ∈ whole, c.isDigit)
    (hf : ∀ c ∈ fraction, c.isDigit) :
    textValue (whole ++ '.' :: fraction) = natOfDigits (whole ++ fraction) / 10 ^ fraction.length := by
  have hno : 'e' ∉ whole ++ '.' :: fraction := by
    rw [List.mem_append, List.mem_cons]
    rintro (he | he | he)
    · exact absurd (hw 'e' he) (by decide)
    · exact absurd he (by decide)
    · exact absurd (hf 'e' he) (by decide)
  rw [textValue_of_not_mem hno, pointValue_append hw hf]

theorem textValue_positionalText : textValue (layout.positionalText d).toList = d.value := by
  have hdigits := isDigit_of_mem_toDigits (n := d.digits)
  have hvalue := natOfDigits_toDigits d.digits
  have hpos : 0 < (Nat.toDigits 10 d.digits).length := Nat.length_toDigits_pos
  unfold positionalText Decimal.value
  dsimp only
  generalize Nat.toDigits 10 d.digits = ds at hdigits hvalue hpos
  split
  · next he =>
    obtain ⟨n, hn⟩ := Int.eq_ofNat_of_zero_le he
    have hwhole : ∀ c ∈ ds ++ List.replicate n '0', c.isDigit :=
      List.forall_mem_append.2 ⟨hdigits, isDigit_of_mem_zeros⟩
    rw [String.toList_append, String.toList_append, String.toList_ofList, toList_zeros, hn, Int.toNat_natCast,
      zpow_natCast]
    split
    · rw [show ".0".toList = '.' :: ['0'] from rfl, textValue_of_point hwhole (List.forall_mem_singleton.2 rfl),
        List.append_assoc, ← List.replicate_succ', natOfDigits_append_zeros, hvalue]
      push_cast
      rw [pow_succ, List.length_singleton, pow_one]
      ring
    · rw [show "".toList = [] from rfl, List.append_nil, textValue_of_digits hwhole, natOfDigits_append_zeros,
        hvalue]
      push_cast
      ring
  next he =>
  obtain ⟨n, hn⟩ : ∃ n : Nat, d.exponent = -(n : Int) := ⟨(-d.exponent).toNat, by omega⟩
  have hscale : (d.digits : ℚ) * 10 ^ d.exponent = d.digits / 10 ^ n := by
    rw [hn, zpow_neg, zpow_natCast, div_eq_mul_inv]
  rw [hscale]
  split
  · next hpoint =>
    have hlength : (ds.drop ((ds.length : Int) + d.exponent).toNat).length = n := by
      rw [List.length_drop]
      omega
    simp only [String.toList_append, String.toList_ofList, List.append_assoc]
    change textValue (ds.take _ ++ '.' :: ds.drop _) = _
    rw [textValue_of_point (fun c hc => hdigits c (List.mem_of_mem_take hc))
      (fun c hc => hdigits c (List.mem_of_mem_drop hc)), List.take_append_drop, hvalue, hlength]
  · next hpoint =>
    have hfraction : ∀ c ∈ List.replicate (-((ds.length : Int) + d.exponent)).toNat '0' ++ ds, c.isDigit :=
      List.forall_mem_append.2 ⟨isDigit_of_mem_zeros, hdigits⟩
    have hlength : (List.replicate (-((ds.length : Int) + d.exponent)).toNat '0' ++ ds).length = n := by
      rw [List.length_append, List.length_replicate]
      omega
    have hzero (cs : List Char) : natOfDigits (['0'] ++ cs) = natOfDigits cs := natOfDigits_zeros_append cs 1
    simp only [String.toList_append, String.toList_ofList, toList_zeros, List.append_assoc]
    change textValue (['0'] ++ '.' :: (List.replicate (-((ds.length : Int) + d.exponent)).toNat '0' ++ ds)) = _
    rw [textValue_of_point (List.forall_mem_singleton.2 rfl) hfraction, hzero, natOfDigits_zeros_append, hvalue,
      hlength]

/-- One digit before the point. -/
theorem pointValue_mantissa {ds : List Char} (hne : 0 < ds.length) (hdigits : ∀ c ∈ ds, c.isDigit) :
    pointValue (ds.take 1 ++ if ds.length > 1 then '.' :: ds.drop 1 else []) =
      natOfDigits ds / 10 ^ (ds.length - 1) := by
  split
  · rw [pointValue_append (fun c hc => hdigits c (List.mem_of_mem_take hc))
      (fun c hc => hdigits c (List.mem_of_mem_drop hc)), List.take_append_drop, List.length_drop]
  · have hlength : ds.length = 1 := by omega
    rw [List.append_nil, List.take_of_length_le hlength.le, pointValue_of_digits hdigits, hlength]
    simp

theorem signedValue_power (power : Int) :
    signedValue ((if power < 0 then "-" else if layout.signedExponent then "+" else "").toList ++
      (toString power.natAbs).toList) = power := by
  have hdigits := isDigit_of_mem_toDigits (n := power.natAbs)
  have hvalue := natOfDigits_toDigits power.natAbs
  rw [Nat.toString_eq_ofList_toDigits, String.toList_ofList]
  split
  · change -(natOfDigits (Nat.toDigits 10 power.natAbs) : Int) = power
    rw [hvalue]
    omega
  · split
    · change (natOfDigits (Nat.toDigits 10 power.natAbs) : Int) = power
      rw [hvalue]
      omega
    · change signedValue (Nat.toDigits 10 power.natAbs) = power
      rw [signedValue_of_digits hdigits, hvalue]
      omega

theorem toList_exponentText :
    (layout.exponentText d).toList =
      ((Nat.toDigits 10 d.digits).take 1 ++
        if (Nat.toDigits 10 d.digits).length > 1 then '.' :: (Nat.toDigits 10 d.digits).drop 1 else []) ++
      'e' :: ((if ((Nat.toDigits 10 d.digits).length : Int) + d.exponent - 1 < 0 then "-"
        else if layout.signedExponent then "+" else "").toList ++
        (toString (((Nat.toDigits 10 d.digits).length : Int) + d.exponent - 1).natAbs).toList) := by
  unfold exponentText
  dsimp only
  simp only [String.toList_append, String.toList_ofList, List.append_assoc]
  congr 2
  split
  · rw [String.toList_append, String.toList_ofList, String.toList_ofList]
    rfl
  · rfl

theorem textValue_exponentText : textValue (layout.exponentText d).toList = d.value := by
  have hdigits := isDigit_of_mem_toDigits (n := d.digits)
  have hvalue := natOfDigits_toDigits d.digits
  have hpos : 0 < (Nat.toDigits 10 d.digits).length := Nat.length_toDigits_pos
  rw [toList_exponentText]
  generalize Nat.toDigits 10 d.digits = ds at hdigits hvalue hpos
  have hno : 'e' ∉ ds.take 1 ++ if ds.length > 1 then '.' :: ds.drop 1 else [] := by
    have hmem : 'e' ∉ ds := fun he => absurd (hdigits 'e' he) (by decide)
    split
    · rw [List.mem_append, List.mem_cons]
      rintro (he | he | he)
      · exact hmem (List.mem_of_mem_take he)
      · exact absurd he (by decide)
      · exact hmem (List.mem_of_mem_drop he)
    · rw [List.append_nil]
      exact fun he => hmem (List.mem_of_mem_take he)
  rw [textValue_append hno, signedValue_power, pointValue_mantissa hpos hdigits, hvalue, Decimal.value]
  obtain ⟨n, hn⟩ : ∃ n : Nat, ds.length = n + 1 := ⟨ds.length - 1, by omega⟩
  rw [hn, Nat.add_sub_cancel, show ((n + 1 : Nat) : Int) + d.exponent - 1 = n + d.exponent by omega,
    zpow_add₀ (by norm_num), zpow_natCast]
  field_simp

/-- Laying digits out keeps their value. -/
theorem textValue_decimalText : textValue (layout.decimalText d).toList = d.value := by
  unfold decimalText
  dsimp only
  split
  · exact layout.textValue_positionalText d
  · exact layout.textValue_exponentText d

/-! ## What the texts look like -/

/-- A number in decimal: digits, and among them what tells it from an integer. -/
structure Marked (cs : List Char) : Prop where
  chars : ∀ c ∈ cs, c.isDigit ∨ c ∈ ['.', 'e', '-', '+']
  digit : ∃ c, cs.head? = some c ∧ c.isDigit
  mark : '.' ∈ cs ∨ 'e' ∈ cs

theorem marked_of_point {whole fraction : List Char} (hne : whole ≠ []) (hw : ∀ c ∈ whole, c.isDigit)
    (hf : ∀ c ∈ fraction, c.isDigit) : Marked (whole ++ '.' :: fraction) := by
  obtain ⟨c, cs, rfl⟩ := List.exists_cons_of_ne_nil hne
  refine ⟨List.forall_mem_append.2 ⟨fun x hx => .inl (hw x hx), ?_⟩, ⟨c, rfl, hw c List.mem_cons_self⟩,
    .inl (by simp)⟩
  exact List.forall_mem_cons.2 ⟨.inr (by simp), fun x hx => .inl (hf x hx)⟩

theorem marked_positionalText (h : layout.keepsFraction) : Marked (layout.positionalText d).toList := by
  have hdigits := isDigit_of_mem_toDigits (n := d.digits)
  have hpos : 0 < (Nat.toDigits 10 d.digits).length := Nat.length_toDigits_pos
  unfold positionalText
  dsimp only
  generalize Nat.toDigits 10 d.digits = ds at hdigits hpos
  have hne : ds ≠ [] := List.ne_nil_of_length_pos hpos
  split
  · rw [String.toList_append, String.toList_append, String.toList_ofList, toList_zeros]
    refine marked_of_point ?_ (List.forall_mem_append.2 ⟨hdigits, isDigit_of_mem_zeros⟩)
      (List.forall_mem_singleton.2 rfl)
    exact List.append_ne_nil_of_left_ne_nil hne _
  split
  · simp only [String.toList_append, String.toList_ofList, List.append_assoc]
    refine marked_of_point ?_ (fun c hc => hdigits c (List.mem_of_mem_take hc))
      (fun c hc => hdigits c (List.mem_of_mem_drop hc))
    rw [Ne, List.take_eq_nil_iff, not_or]
    exact ⟨by omega, hne⟩
  · simp only [String.toList_append, String.toList_ofList, toList_zeros, List.append_assoc]
    change Marked (['0'] ++ '.' :: (List.replicate _ '0' ++ ds))
    exact marked_of_point (List.cons_ne_nil '0' []) (List.forall_mem_singleton.2 rfl)
      (List.forall_mem_append.2 ⟨isDigit_of_mem_zeros, hdigits⟩)

theorem marked_exponentText : Marked (layout.exponentText d).toList := by
  have hdigits := isDigit_of_mem_toDigits (n := d.digits)
  have hpos : 0 < (Nat.toDigits 10 d.digits).length := Nat.length_toDigits_pos
  have hpower := isDigit_of_mem_toDigits (n := (((Nat.toDigits 10 d.digits).length : Int) + d.exponent - 1).natAbs)
  rw [toList_exponentText]
  generalize Nat.toDigits 10 d.digits = ds at hdigits hpos hpower
  obtain ⟨c, cs, rfl⟩ := List.exists_cons_of_length_pos hpos
  have hrest : ∀ x ∈ (if (c :: cs).length > 1 then '.' :: (c :: cs).drop 1 else []),
      x.isDigit ∨ x ∈ ['.', 'e', '-', '+'] := by
    split
    · rw [List.forall_mem_cons]
      exact ⟨.inr (by simp), fun x hx => .inl (hdigits x (List.mem_of_mem_drop hx))⟩
    · exact List.forall_mem_nil _
  have hsign : ∀ x ∈ (if ((c :: cs).length : Int) + d.exponent - 1 < 0 then "-"
      else if layout.signedExponent then "+" else "").toList, x.isDigit ∨ x ∈ ['.', 'e', '-', '+'] := by
    split
    · simp
    · split <;> simp
  refine ⟨?_, ⟨c, rfl, hdigits c List.mem_cons_self⟩, .inr (by simp)⟩
  rw [Nat.toString_eq_ofList_toDigits, String.toList_ofList, List.forall_mem_append, List.forall_mem_append,
    List.forall_mem_cons, List.forall_mem_append]
  refine ⟨⟨fun x hx => .inl (hdigits x (List.mem_of_mem_take hx)), hrest⟩, .inr (by simp), hsign, ?_⟩
  exact fun x hx => .inl (hpower x hx)

theorem marked_decimalText (h : layout.keepsFraction) : Marked (layout.decimalText d).toList := by
  unfold decimalText
  dsimp only
  split
  · exact layout.marked_positionalText d h
  · exact layout.marked_exponentText d

variable {layout}

theorem text_eq {x : Float} {b : Binary} (hx : Binary.ofFloat? x = some b) :
    layout.text x = (if b.negative then "-" else "") ++ layout.decimalText (b.shortest layout.tie) := by
  rw [text, hx]

/-- The text of a finite float is a number in decimal, perhaps after a minus sign. -/
theorem marked_text (h : layout.keepsFraction) {x : Float} {b : Binary} (hx : Binary.ofFloat? x = some b) :
    ∃ cs, Marked cs ∧ ((layout.text x).toList = cs ∨ (layout.text x).toList = '-' :: cs) := by
  refine ⟨_, layout.marked_decimalText (b.shortest layout.tie) h, ?_⟩
  rw [text_eq hx, String.toList_append]
  split
  · exact .inr rfl
  · exact .inl rfl

/-- A finite float is known from its text. -/
theorem text_inj (h : layout.keepsFraction) {x y : Float} {b c : Binary} (hx : Binary.ofFloat? x = some b)
    (hy : Binary.ofFloat? y = some c) (htext : layout.text x = layout.text y) : x = y := by
  rw [text_eq hx, text_eq hy] at htext
  -- no digit is a sign, so the signs agree and what follows them does
  have hstart (d : Decimal) (s : String) : "-" ++ s ≠ "" ++ layout.decimalText d := by
    obtain ⟨z, hz, hdigit⟩ := (layout.marked_decimalText d h).digit
    intro heq
    have hlist := congrArg (fun s => s.toList.head?) heq
    rw [String.toList_append, String.toList_append] at hlist
    obtain rfl : '-' = z := Option.some.inj (hlist.trans hz)
    exact absurd hdigit (by decide)
  have hsign : b.negative = c.negative := by
    by_cases hb : b.negative
    · by_cases hc : c.negative
      · rw [hb, hc]
      · rw [if_pos hb, if_neg hc] at htext
        exact absurd htext (hstart _ _)
    · by_cases hc : c.negative
      · rw [if_neg hb, if_pos hc] at htext
        exact absurd htext.symm (hstart _ _)
      · rw [Bool.eq_false_of_not_eq_true hb, Bool.eq_false_of_not_eq_true hc]
  rw [hsign] at htext
  have hdecimal : layout.decimalText (b.shortest layout.tie) = layout.decimalText (c.shortest layout.tie) :=
    String.append_right_inj _ |>.1 htext
  have hvalue : (b.shortest layout.tie).value = (c.shortest layout.tie).value := by
    rw [← layout.textValue_decimalText, ← layout.textValue_decimalText, hdecimal]
  obtain ⟨hmantissa, hexponent⟩ :=
    Binary.shortest_value_inj (Binary.normal_of_ofFloat? hx) (Binary.normal_of_ofFloat? hy) hvalue
  have hsame : b = c := by
    cases b
    cases c
    simp_all
  exact Binary.ofFloat?_inj hx (hsame ▸ hy)

end Layout

end GotoScript.Number
