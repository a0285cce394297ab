import GotoScript.Proofs.Service.VersionOrder

/-!
# Versions as sequences of numbers

Trailing zeros of a version do not count, whether they are dropped or written out, and so neither do the rules that
the comparison has for texts that are equal and for lists of different lengths.

* `pieces_eq_splitOn`, `component_eq` : the numbers of a version, by splitting it and reading leading digits;
* `exists_zeros`, `dropTrailingZeros_append_zeros` : a list is what dropping leaves, and zeros;
* `compare_eq_comparePadded` : versions compare as their numbers do, continued with zeros;
* `compare_is_total_preorder` : the order of versions.
-/

namespace GotoScript.Version

open Std

/-! ## Numbers -/

theorem pieces_eq_splitOn (separator : Char) (cs : List Char) : pieces separator cs = cs.splitOn separator := by
  induction cs with
  | nil => rw [pieces, List.splitOn_nil]
  | cons c cs ih =>
    rw [pieces, List.splitOn_cons_eq_if_modifyHead, ih]
    by_cases h : c = separator
    · simp [h]
    · cases hsplit : cs.splitOn separator with
      | nil => exact absurd hsplit (List.splitOn_ne_nil separator cs)
      | cons piece rest => simp [h]

theorem component_eq (piece : List Char) :
    component piece =
      let n := Nat.ofDigitChars 10 (piece.takeWhile Char.isDigit) 0
      if n < UInt64.size then n else 0 := by
  rw [component, Number.natOfDigits_eq]

/-! ## Trailing zeros -/

theorem dropTrailingZeros_append_zeros (l : List Nat) (n : Nat) :
    dropTrailingZeros (l ++ List.replicate n 0) = dropTrailingZeros l := by
  unfold dropTrailingZeros
  rw [List.reverse_append, List.reverse_replicate, List.dropWhile_append, List.dropWhile_replicate]
  rfl

theorem exists_zeros (l : List Nat) : ∃ n, dropTrailingZeros l ++ List.replicate n 0 = l := by
  have hzeros : ∀ x ∈ l.reverse.takeWhile (· = 0), x = 0 := fun x hx =>
    of_decide_eq_true (List.all_eq_true.1 List.all_takeWhile x hx)
  refine ⟨(l.reverse.takeWhile (· = 0)).length, ?_⟩
  unfold dropTrailingZeros
  rw [← List.reverse_inj, List.reverse_append, List.reverse_replicate, List.reverse_reverse,
    ← List.eq_replicate_of_mem hzeros, List.takeWhile_append_dropWhile]

theorem dropTrailingZeros_idem (l : List Nat) : dropTrailingZeros (dropTrailingZeros l) = dropTrailingZeros l := by
  obtain ⟨n, hn⟩ := exists_zeros l
  rw [← dropTrailingZeros_append_zeros (dropTrailingZeros l) n, hn]

theorem pad_append_zeros (n : Nat) (l : List Nat) (k : Nat) : pad n (l ++ List.replicate k 0) = pad n l := by
  induction n generalizing l k with
  | zero => rfl
  | succ n ih =>
    cases l with
    | cons x l => exact congrArg (x :: ·) (ih l k)
    | nil =>
      cases k with
      | zero => rfl
      | succ k => exact congrArg (0 :: ·) (ih [] k)

theorem pad_dropTrailingZeros (n : Nat) (l : List Nat) : pad n (dropTrailingZeros l) = pad n l := by
  obtain ⟨k, hk⟩ := exists_zeros l
  rw [← pad_append_zeros n (dropTrailingZeros l) k, hk]

theorem pad_length (l : List Nat) : pad l.length l = l := by
  induction l with
  | nil => rfl
  | cons x l ih => exact congrArg (x :: ·) ih

theorem pad_eq_rightpad {n : Nat} {l : List Nat} (h : l.length ≤ n) : pad n l = l.rightpad n 0 := by
  have hlength : (l.rightpad n 0).length = n := by
    rw [List.length_rightpad]
    omega
  rw [← pad_length (l.rightpad n 0), hlength, List.rightpad, pad_append_zeros]

theorem comparePadded_eq_rightpad {n : Nat} {as bs : List Nat} (ha : as.length ≤ n) (hb : bs.length ≤ n) :
    comparePadded as bs = List.compareLex Ord.compare (as.rightpad n 0) (bs.rightpad n 0) := by
  rw [comparePadded_eq ha hb, pad_eq_rightpad ha, pad_eq_rightpad hb]

/-- Lists that are continued with zeros compare equal if they are equal without their trailing zeros. -/
theorem comparePadded_eq_eq_iff {as bs : List Nat} :
    comparePadded as bs = .eq ↔ dropTrailingZeros as = dropTrailingZeros bs := by
  have ha : as.length ≤ max as.length bs.length := by omega
  have hb : bs.length ≤ max as.length bs.length := by omega
  constructor
  · intro h
    rw [comparePadded_eq_rightpad ha hb] at h
    rw [← dropTrailingZeros_append_zeros as, ← dropTrailingZeros_append_zeros bs]
    exact congrArg dropTrailingZeros (LawfulEqCmp.eq_of_compare h)
  · intro h
    rw [comparePadded_eq ha hb, ← pad_dropTrailingZeros _ as, h, pad_dropTrailingZeros]
    exact ReflCmp.compare_self

theorem comparePadded_dropTrailingZeros (as bs : List Nat) :
    comparePadded (dropTrailingZeros as) (dropTrailingZeros bs) = comparePadded as bs := by
  have hsame (l : List Nat) : comparePadded (dropTrailingZeros l) l = .eq :=
    comparePadded_eq_eq_iff.2 (dropTrailingZeros_idem l)
  rw [TransCmp.congr_left (hsame as), TransCmp.congr_right (hsame bs)]

/-- Of two lists without trailing zeros that compare equal, neither is longer. -/
theorem compareComponents_dropTrailingZeros (as bs : List Nat) :
    compareComponents (dropTrailingZeros as) (dropTrailingZeros bs) = comparePadded as bs := by
  unfold compareComponents compareLex
  rw [comparePadded_dropTrailingZeros]
  cases h : comparePadded as bs with
  | lt | gt => rfl
  | eq =>
    rw [comparePadded_eq_eq_iff.1 h]
    exact Nat.compare_eq_eq.2 rfl

theorem compare_eq_comparePadded (a b : String) : compare a b = comparePadded (components a) (components b) := by
  rw [compare_eq]
  exact compareComponents_dropTrailingZeros _ _

/-! ## Zeros that are written out -/

/-- Zeros as further components. -/
def zeros (n : Nat) : String :=
  String.join (List.replicate n ".0")

theorem components_append_zero (version : String) : components (version ++ ".0") = components version ++ [0] := by
  have hsplit : (version ++ ".0").toList = version.toList ++ '.' :: ['0'] := String.toList_append
  rw [components, pieces_eq_splitOn, hsplit, List.splitOn_append_cons_self, List.map_append, ← pieces_eq_splitOn]
  rfl

theorem components_append_zeros (version : String) (n : Nat) :
    components (version ++ zeros n) = components version ++ List.replicate n 0 := by
  induction n with
  | zero => rw [zeros, List.replicate_zero, List.replicate_zero, String.join_nil, String.append_empty, List.append_nil]
  | succ n ih =>
    have hzeros : version ++ zeros (n + 1) = version ++ zeros n ++ ".0" := by
      rw [zeros, List.replicate_succ', String.join_append, String.append_assoc]
      rfl
    rw [hzeros, components_append_zero, ih, List.append_assoc, ← List.replicate_succ']

/-- Appended zeros do not count. -/
theorem comparePadded_append_zeros (as bs : List Nat) (m n : Nat) :
    comparePadded (as ++ List.replicate m 0) (bs ++ List.replicate n 0) = comparePadded as bs := by
  rw [← comparePadded_dropTrailingZeros, dropTrailingZeros_append_zeros, dropTrailingZeros_append_zeros,
    comparePadded_dropTrailingZeros]

/-! ## The order -/

/-- The order of versions: total, transitive, and lexicographic on the numbers of their components, zeros standing
for those that are missing. Zeros at the end never count, and neither do the rules for equal texts and for lists of
different lengths. -/
theorem compare_is_total_preorder :
    (∀ a b, compare a b = (compare b a).swap) ∧
    (∀ a b c, (compare a b).isLE → (compare b c).isLE → (compare a c).isLE) ∧
    (∀ version, components version = (version.toList.splitOn '.').map fun piece =>
      let n := Nat.ofDigitChars 10 (piece.takeWhile Char.isDigit) 0
      if n < UInt64.size then n else 0) ∧
    (∀ a b n, (components a).length ≤ n → (components b).length ≤ n →
      compare a b =
        List.compareLex Ord.compare ((components a).rightpad n 0) ((components b).rightpad n 0)) ∧
    (∀ a b, compare a b = .eq ↔ dropTrailingZeros (components a) = dropTrailingZeros (components b)) ∧
    (∀ a b m n, compare (a ++ zeros m) (b ++ zeros n) = compare a b) ∧
    ∀ a b,
      let byNumbers := comparePadded (significant a) (significant b)
      let byLength := Ord.compare (significant a).length (significant b).length
      compare a b = byNumbers ∧ compare a b = byNumbers.then byLength ∧
        compare a b = if a = b then .eq else byNumbers := by
  refine ⟨fun a b => OrientedCmp.eq_swap, fun a b c => TransCmp.isLE_trans, fun version => ?_, fun a b n ha hb => ?_,
    fun a b => ?_, fun a b m n => ?_, fun a b => ?_⟩
  · rw [components, pieces_eq_splitOn]
    exact congrArg (List.map · _) (funext component_eq)
  · rw [compare_eq_comparePadded, comparePadded_eq_rightpad ha hb]
  · rw [compare_eq_comparePadded, comparePadded_eq_eq_iff]
  · rw [compare_eq_comparePadded, components_append_zeros, components_append_zeros, comparePadded_append_zeros,
      ← compare_eq_comparePadded]
  · have hnumbers : compare a b = comparePadded (significant a) (significant b) := by
      rw [compare_eq_comparePadded]
      exact (comparePadded_dropTrailingZeros _ _).symm
    refine ⟨hnumbers, compare_eq a b, ?_⟩
    split
    · next h => exact ReflCmp.cmp_eq_of_eq h
    · exact hnumbers

/-- A component without digits, an empty one, one too great for a word, and digits before other characters. -/
theorem compare_unreadable_components :
    (compare "1.beta" "01..18446744073709551616").isLE ∧
      (compare "01..18446744073709551616" "1.0.0.7rc").isLE ∧ (compare "1.beta" "1.0.0.7rc").isLE ∧
      compare ("1.beta" ++ zeros 3) ("1.0.0.7rc" ++ zeros 1) = .lt := by
  obtain ⟨-, htrans, -, -, -, hzeros, -⟩ := compare_is_total_preorder
  have hfirst : (compare "1.beta" "01..18446744073709551616").isLE := by decide +kernel
  have hsecond : (compare "01..18446744073709551616" "1.0.0.7rc").isLE := by decide +kernel
  refine ⟨hfirst, hsecond, htrans _ _ _ hfirst hsecond, ?_⟩
  rw [hzeros]
  decide +kernel

end GotoScript.Version
