import GotoScript.Service.Version

/-!
# The order of versions

* `pad n l` : `l` continued with zeros to length `n`;
* `comparePadded_eq` : comparing with padding is comparing the padded lists, at any common length;
* `compare_eq` : equal texts need no case of their own;
* the instance `TransCmp Version.compare` : versions are totally preordered.
-/

namespace GotoScript.Version

open Std

/-- The first `n` entries of a list, zeros after its end. -/
def pad : Nat → List Nat → List Nat
  | 0, _ => []
  | n + 1, l => l.headD 0 :: pad n l.tail

/-- The comparison, one place at a time, whichever list ends first. -/
theorem comparePadded_uncons (as bs : List Nat) :
    comparePadded as bs =
      (Ord.compare (as.headD 0) (bs.headD 0)).then (comparePadded as.tail bs.tail) := by
  cases as with
  | cons a as => rfl
  | nil =>
    cases bs with
    | nil => rfl
    | cons b bs =>
      cases b with
      | zero => simp [comparePadded]
      | succ b =>
        have hlt : Ord.compare 0 (b + 1) = .lt := Nat.compare_eq_lt.2 (by omega)
        simp [comparePadded, hlt]

theorem comparePadded_eq {n : Nat} {as bs : List Nat} (ha : as.length ≤ n) (hb : bs.length ≤ n) :
    comparePadded as bs = List.compareLex Ord.compare (pad n as) (pad n bs) := by
  induction n generalizing as bs with
  | zero =>
    obtain rfl := List.length_eq_zero_iff.1 (Nat.le_zero.1 ha)
    obtain rfl := List.length_eq_zero_iff.1 (Nat.le_zero.1 hb)
    rfl
  | succ n ih =>
    have hta : as.tail.length ≤ n := by rw [List.length_tail]; omega
    have htb : bs.tail.length ≤ n := by rw [List.length_tail]; omega
    rw [comparePadded_uncons, ih hta htb, pad, pad, List.compareLex_cons_cons]

instance : TransCmp comparePadded where
  eq_swap {as bs} := by
    have ha : as.length ≤ max as.length bs.length := by omega
    have hb : bs.length ≤ max as.length bs.length := by omega
    rw [comparePadded_eq ha hb, comparePadded_eq hb ha]
    exact OrientedCmp.eq_swap
  isLE_trans {as bs cs} hab hbc := by
    have ha : as.length ≤ max as.length (max bs.length cs.length) := by omega
    have hb : bs.length ≤ max as.length (max bs.length cs.length) := by omega
    have hc : cs.length ≤ max as.length (max bs.length cs.length) := by omega
    rw [comparePadded_eq ha hb] at hab
    rw [comparePadded_eq hb hc] at hbc
    rw [comparePadded_eq ha hc]
    exact TransCmp.isLE_trans hab hbc

/-- The order of two lists of components: padded, then by length. -/
def compareComponents : List Nat → List Nat → Ordering :=
  compareLex comparePadded (compareOn List.length)

instance : TransCmp compareComponents :=
  inferInstanceAs (TransCmp (compareLex _ _))

theorem compare_eq (a b : String) :
    compare a b = compareComponents (significant a) (significant b) := by
  unfold compare
  split
  · next h =>
    subst h
    exact ReflCmp.compare_self.symm
  · rfl

instance : TransCmp compare where
  eq_swap {a b} := by
    rw [compare_eq, compare_eq]
    exact OrientedCmp.eq_swap
  isLE_trans {a b c} hab hbc := by
    rw [compare_eq] at *
    exact TransCmp.isLE_trans hab hbc

end GotoScript.Version
