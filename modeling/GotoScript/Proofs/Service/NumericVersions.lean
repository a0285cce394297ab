import GotoScript.Proofs.Service.Components

/-!
# Versions made of digits

A version whose components are all digits should compare as the integers that they write. It does so as long as
these are words of 64 bits. Where one is greater, its component counts as zero.

* `Numeric`, `dotted`, `decimal` : such versions, and the integers in them;
* `components_dotted` : the numbers that the comparison takes for them;
* `zeroed`, `compare_zeroed` : an integer that is too great compares equal to zero;
* `numeric_compare_as_integers_iff` : which versions compare as their integers.
-/

namespace GotoScript.Version

open Std

/-- One or more components, each of one or more digits. -/
structure Numeric (pieces : List String) : Prop where
  ne_nil : pieces ≠ []
  digits : ∀ p ∈ pieces, p ≠ "" ∧ p.toList.all Char.isDigit

instance (pieces : List String) : Decidable (Numeric pieces) :=
  decidable_of_iff (pieces ≠ [] ∧ ∀ p ∈ pieces, p ≠ "" ∧ p.toList.all Char.isDigit)
    ⟨fun h => ⟨h.1, h.2⟩, fun h => ⟨h.ne_nil, h.digits⟩⟩

/-- The version with these components. -/
def dotted (pieces : List String) : String :=
  ".".intercalate pieces

/-- The integer that digits write. -/
def decimal (piece : String) : Nat :=
  Nat.ofDigitChars 10 piece.toList 0

/-- The lexicographic order of integers, with zeros for those that are missing. -/
def integerOrder (as bs : List Nat) : Ordering :=
  let n := max as.length bs.length
  List.compareLex Ord.compare (as.rightpad n 0) (bs.rightpad n 0)

/-- All integers are words. -/
def Fits (pieces : List String) : Prop :=
  ∀ p ∈ pieces, decimal p < UInt64.size

instance (pieces : List String) : Decidable (Fits pieces) :=
  inferInstanceAs (Decidable (∀ p ∈ pieces, decimal p < UInt64.size))

/-- An integer, or zero if it is no word. -/
def wordOrZero (n : Nat) : Nat :=
  if n < UInt64.size then n else 0

variable {as bs pieces : List String}

theorem comparePadded_eq_integerOrder (as bs : List Nat) : comparePadded as bs = integerOrder as bs :=
  comparePadded_eq_rightpad (Nat.le_max_left _ _) (Nat.le_max_right _ _)

theorem wordOrZero_lt (n : Nat) : wordOrZero n < UInt64.size := by
  unfold wordOrZero
  split
  · assumption
  · decide

theorem component_of_digits {piece : String} (h : piece.toList.all Char.isDigit) :
    component piece.toList = wordOrZero (decimal piece) := by
  have hall : piece.toList.takeWhile Char.isDigit = piece.toList := by
    have happend := @List.takeWhile_append_of_pos _ _ piece.toList [] (List.all_eq_true.1 h)
    simpa using happend
  rw [component_eq, hall]
  rfl

theorem components_dotted (h : Numeric pieces) :
    components (dotted pieces) = pieces.map fun p => wordOrZero (decimal p) := by
  have hdot : ∀ l ∈ pieces.map String.toList, '.' ∉ l := by
    intro l hl hmem
    obtain ⟨p, hp, rfl⟩ := List.mem_map.1 hl
    exact absurd (List.all_eq_true.1 (h.digits p hp).2 '.' hmem) (by decide)
  have hne : pieces.map String.toList ≠ [] := fun hnil => h.ne_nil (List.map_eq_nil_iff.1 hnil)
  have hsplit : (dotted pieces).toList.splitOn '.' = pieces.map String.toList := by
    rw [dotted, String.toList_intercalate]
    exact List.splitOn_intercalate '.' hdot hne
  rw [components, pieces_eq_splitOn, hsplit, List.map_map]
  exact List.map_congr_left fun p hp => component_of_digits (h.digits p hp).2

theorem compare_dotted (ha : Numeric as) (hb : Numeric bs) :
    compare (dotted as) (dotted bs) =
      integerOrder (as.map fun p => wordOrZero (decimal p)) (bs.map fun p => wordOrZero (decimal p)) := by
  rw [compare_eq_comparePadded, components_dotted ha, components_dotted hb, comparePadded_eq_integerOrder]

theorem map_wordOrZero_of_fits (h : Fits pieces) :
    (pieces.map fun p => wordOrZero (decimal p)) = pieces.map decimal :=
  List.map_congr_left fun p hp => if_pos (h p hp)

/-- The integers are equal where there are equally many and their order says so. -/
theorem eq_of_integerOrder {as bs : List Nat} (hlength : as.length = bs.length) (h : integerOrder as bs = .eq) :
    as = bs := by
  rw [← comparePadded_eq_integerOrder, comparePadded_eq (Nat.le_refl _) (Nat.le_of_eq hlength.symm)] at h
  have hpad := LawfulEqCmp.eq_of_compare h
  rw [pad_length, hlength, pad_length] at hpad
  exact hpad

/-! ## Integers that are no words -/

/-- The digits of a word; a zero in place of the digits of any other integer. -/
def zeroed (piece : String) : String :=
  if decimal piece < UInt64.size then piece else "0"

theorem decimal_zeroed (piece : String) : decimal (zeroed piece) = wordOrZero (decimal piece) := by
  unfold zeroed wordOrZero
  split <;> rfl

theorem numeric_zeroed (h : Numeric pieces) : Numeric (pieces.map zeroed) := by
  refine ⟨fun hnil => h.ne_nil (List.map_eq_nil_iff.1 hnil), List.forall_mem_map.2 fun p hp => ?_⟩
  unfold zeroed
  split
  · exact h.digits p hp
  · decide

theorem map_decimal_zeroed (pieces : List String) :
    (pieces.map zeroed).map decimal = pieces.map fun p => wordOrZero (decimal p) := by
  rw [List.map_map]
  exact List.map_congr_left fun p _ => decimal_zeroed p

theorem fits_zeroed (pieces : List String) : Fits (pieces.map zeroed) := by
  refine List.forall_mem_map.2 fun p _ => ?_
  rw [decimal_zeroed]
  exact wordOrZero_lt _

/-- With zeros in place of the integers that are no words, the version compares equal. -/
theorem compare_zeroed (h : Numeric pieces) : compare (dotted pieces) (dotted (pieces.map zeroed)) = .eq := by
  rw [compare_dotted h (numeric_zeroed h), map_wordOrZero_of_fits (fits_zeroed pieces), map_decimal_zeroed]
  exact @ReflCmp.compare_self _ (List.compareLex Ord.compare) _ _

/-- Its integers do not, unless all of them are words. -/
theorem fits_of_integerOrder (h : integerOrder (pieces.map decimal) ((pieces.map zeroed).map decimal) = .eq) :
    Fits pieces := by
  intro p hp
  have hsame := eq_of_integerOrder (by simp) h
  rw [map_decimal_zeroed] at hsame
  rw [List.map_inj_left.1 hsame p hp]
  exact wordOrZero_lt _

/-- Versions compare by the integers of their components, those that are no words counting as zero. So a version
compares as its integers with all versions of words if it is made of words itself. -/
theorem numeric_compare_as_integers_iff (pieces : List String) (h : Numeric pieces) :
    (∀ others, Numeric others →
      compare (dotted pieces) (dotted others) =
        integerOrder (pieces.map fun p => wordOrZero (decimal p)) (others.map fun p => wordOrZero (decimal p))) ∧
    (Fits pieces ↔ ∀ others, Numeric others → Fits others →
      compare (dotted pieces) (dotted others) = integerOrder (pieces.map decimal) (others.map decimal)) := by
  refine ⟨fun others hothers => compare_dotted h hothers, fun hfits others hothers hfits' => ?_, fun hall => ?_⟩
  · rw [compare_dotted h hothers, map_wordOrZero_of_fits hfits, map_wordOrZero_of_fits hfits']
  · have hzeroed := hall (pieces.map zeroed) (numeric_zeroed h) (fits_zeroed pieces)
    exact fits_of_integerOrder (hzeroed.symm.trans (compare_zeroed h))

/-- The two greatest words, one of them with zeros in front. -/
theorem compare_greatest_words :
    Numeric ["1", "0018446744073709551615"] ∧ Numeric ["1", "18446744073709551614", "7"] ∧
      compare "1.0018446744073709551615" "1.18446744073709551614.7" = .gt := by
  have hpieces : Numeric ["1", "0018446744073709551615"] := by decide
  have hothers : Numeric ["1", "18446744073709551614", "7"] := by decide
  obtain ⟨-, hiff⟩ := numeric_compare_as_integers_iff _ hpieces
  have hcompare := hiff.1 (by decide) _ hothers (by decide)
  exact ⟨hpieces, hothers, hcompare.trans (by decide)⟩

/-- One more than the greatest word, and the comparison is the wrong way round. -/
theorem compare_no_word :
    Numeric ["18446744073709551616"] ∧ Numeric ["1"] ∧
      integerOrder (["18446744073709551616"].map decimal) (["1"].map decimal) = .gt ∧
      compare (dotted ["18446744073709551616"]) (dotted ["1"]) = .lt := by
  decide

end GotoScript.Version
