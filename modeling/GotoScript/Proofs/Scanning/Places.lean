import GotoScript.Proofs.Scanning.Tiling
import GotoScript.Token.Table

/-!
# Lines and columns of a text

A cursor walks over a text once and stops wherever it is asked for a line and a column. Its answers do not
depend on where it stopped before, and they are told by the characters before the place alone:

* `Text.after` : the line and column to which characters lead;
* `Text.LineCursor.locate_locate_eq_max` : a cursor that is asked twice has gone as far as the greater offset;
* `Text.place` : the line and column of an offset; `Text.place_append` : they are those to which the
  characters before it lead;
* `TokenTable.places_eq_map` : one cursor finds every place as a cursor of its own would.
-/

namespace GotoScript

namespace Text

theorem unifyLineEnds_of_notMem {cs : List Char} (h : '\r' ∉ cs) : unifyLineEnds cs = cs := by
  induction cs with
  | nil => rfl
  | cons c rest ih =>
    have hc : c ≠ '\r' := fun hc => h (hc ▸ .head _)
    rw [unifyLineEnds_of_ne hc, ih fun hmem => h (.tail _ hmem)]

/-! ## Characters -/

/-- Where there is no overflow, a line or a column grows as a number does. -/
theorem toNat_add_ofNat {m : UInt32} {n : Nat} (h : m.toNat + n < UInt32.size) :
    (m + UInt32.ofNat n).toNat = m.toNat + n := by
  have hn : (UInt32.ofNat n).toNat = n := UInt32.toNat_ofNat_of_lt (by omega)
  rw [UInt32.toNat_add, hn]
  exact Nat.mod_eq_of_lt h

/-- The line and column to which the characters lead. -/
def after (line column : UInt32) : List Char → UInt32 × UInt32
  | [] => (line, column)
  | c :: cs => if c = '\n' then after (line + 1) 1 cs else after line (column + 1) cs

theorem after_append (line column : UInt32) (cs ds : List Char) :
    after line column (cs ++ ds) = after (after line column cs).1 (after line column cs).2 ds := by
  fun_induction after line column cs with
  | case1 => rfl
  | case2 line column cs ih => rw [List.cons_append, after, if_pos rfl, ih]
  | case3 line column c cs hc ih => rw [List.cons_append, after, if_neg hc, ih]

/-- Columns do not depend on lines. -/
theorem after_add (line column n : UInt32) (cs : List Char) :
    after (line + n) column cs = ((after line column cs).1 + n, (after line column cs).2) := by
  fun_induction after line column cs with
  | case1 => rfl
  | case2 line column cs ih =>
    rw [after, if_pos rfl, ← ih]
    congr 1
    ac_rfl
  | case3 line column c cs hc ih => rw [after, if_neg hc, ih]

/-- Every line feed leads one line on. -/
theorem after_fst (line column : UInt32) (cs : List Char) :
    (after line column cs).1 = line + UInt32.ofNat (cs.count '\n') := by
  fun_induction after line column cs with
  | case1 => exact (UInt32.add_zero _).symm
  | case2 line column cs ih =>
    rw [ih, List.count_cons_self, UInt32.ofNat_add]
    change line + 1 + _ = line + (_ + 1)
    ac_rfl
  | case3 line column c cs hc ih => rw [ih, List.count_cons_of_ne hc]

/-! ## Cursors -/

namespace LineCursor

theorem advance_advance {a b : Nat} (h : a ≤ b) (cs : List Char) (offset : Nat)
    (line column : UInt32) :
    (advance a cs offset line column).locate b = advance b cs offset line column := by
  fun_induction advance a cs offset line column with
  | case1 => rfl
  | case2 cs offset line column hle ih =>
    rw [ih, advance, if_pos (Nat.le_trans hle h), if_pos rfl]
  | case3 c cs offset line column hle hc ih =>
    rw [ih]
    conv => rhs; rw [advance, if_pos (Nat.le_trans hle h), if_neg hc]
  | case4 => rfl

/-- Stopping on the way makes no difference. -/
theorem locate_locate {a b : Nat} (h : a ≤ b) (cursor : LineCursor) :
    (cursor.locate a).locate b = cursor.locate b :=
  advance_advance h ..

/-- A cursor stays where it is when it is asked for an offset behind it. -/
theorem advance_behind {a b : Nat} (h : b ≤ a) (cs : List Char) (offset : Nat) (line column : UInt32) :
    (advance a cs offset line column).locate b = advance a cs offset line column := by
  fun_induction advance a cs offset line column with
  | case1 => rfl
  | case2 cs offset line column _ ih => exact ih
  | case3 c cs offset line column _ _ ih => exact ih
  | case4 c cs offset line column hlt => exact if_neg fun hle => hlt (Nat.le_trans hle h)

/-- A cursor that is asked twice has gone as far as the greater offset. -/
theorem locate_locate_eq_max (cursor : LineCursor) (a b : Nat) :
    (cursor.locate a).locate b = cursor.locate (max a b) := by
  rcases Nat.le_total a b with h | h
  · rw [locate_locate h, Nat.max_eq_right h]
  · rw [Nat.max_eq_left h]
    exact advance_behind h ..

/-- A cursor goes no further than the end of the text. -/
theorem advance_min (target : Nat) (cs : List Char) (offset : Nat) (line column : UInt32) :
    advance (min target (offset + byteLength cs)) cs offset line column =
      advance target cs offset line column := by
  induction cs generalizing offset line column with
  | nil => rfl
  | cons c cs ih =>
    have hmin : offset + c.utf8Size ≤ min target (offset + byteLength (c :: cs)) ↔
        offset + c.utf8Size ≤ target := by
      rw [byteLength]
      omega
    have hsum : offset + byteLength (c :: cs) = offset + c.utf8Size + byteLength cs := by
      rw [byteLength, Nat.add_assoc]
    rw [advance, advance, if_congr hmin rfl rfl, hsum, ih, ih]

/-- A cursor stops between two characters with those before it behind. -/
theorem advance_append (cs ds : List Char) (offset : Nat) (line column : UInt32) :
    advance (offset + byteLength cs) (cs ++ ds) offset line column =
      ⟨ds, offset + byteLength cs, (after line column cs).1, (after line column cs).2⟩ := by
  induction cs generalizing offset line column with
  | nil =>
    cases ds with
    | nil => rfl
    | cons d ds =>
      have hsize := d.utf8Size_pos
      rw [List.nil_append, advance, if_neg (by rw [byteLength]; omega)]
      rfl
  | cons c cs ih =>
    have hle : offset + c.utf8Size ≤ offset + byteLength (c :: cs) := by
      rw [byteLength]
      omega
    have hsum : offset + byteLength (c :: cs) = offset + c.utf8Size + byteLength cs := by
      rw [byteLength, Nat.add_assoc]
    rw [List.cons_append, advance, if_pos hle, hsum, ih, ih, after]
    split <;> rfl

end LineCursor

/-- The line and column of an offset. -/
def place (text : List Char) (offset : Nat) : UInt32 × UInt32 :=
  let cursor := LineCursor.locate ⟨text, 0, 1, 1⟩ offset
  (cursor.line, cursor.column)

/-- Only what stands before a place tells its line and column. -/
theorem place_append (cs ds : List Char) : place (cs ++ ds) (byteLength cs) = after 1 1 cs := by
  have hstop := LineCursor.advance_append cs ds 0 1 1
  rw [Nat.zero_add] at hstop
  unfold place LineCursor.locate
  rw [hstop]

/-- Beyond the end of a text is no other place. -/
theorem place_min (text : List Char) (offset : Nat) :
    place text (min offset (byteLength text)) = place text offset := by
  have hstop := LineCursor.advance_min offset text 0 1 1
  rw [Nat.zero_add] at hstop
  unfold place LineCursor.locate
  rw [hstop]

end Text

/-- A cursor that visits ascending offsets finds each as a new cursor would. -/
theorem TokenTable.places_eq_map (cursor : Text.LineCursor) {offsets : List Nat}
    (h : offsets.Pairwise (· ≤ ·)) :
    places cursor offsets =
      offsets.map fun offset => ((cursor.locate offset).line, (cursor.locate offset).column) := by
  induction offsets generalizing cursor with
  | nil => rfl
  | cons offset later ih =>
    obtain ⟨hle, hlater⟩ := List.pairwise_cons.1 h
    rw [places, ih _ hlater, List.map_cons, List.cons.injEq]
    refine ⟨rfl, List.map_congr_left fun next hnext => ?_⟩
    rw [Text.LineCursor.locate_locate (hle next hnext)]

end GotoScript
