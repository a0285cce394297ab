/-!
# Lines and columns of a text

Places in a text are counted three ways: as byte offsets of its UTF-8 form, as characters, and as
a line and a column, both from one. `LineCursor` walks forward from offsets to lines and columns;
`offsetOf?` goes back. Only a line feed ends a line here: `unifyLineEnds` is what turns carriage
returns into line feeds beforehand. Lines and columns are 32-bit words.
-/

namespace GotoScript.Text

/-- The number of bytes of the UTF-8 form. -/
def byteLength : List Char → Nat
  | [] => 0
  | c :: cs => c.utf8Size + byteLength cs

@[simp]
theorem byteLength_append (a b : List Char) : byteLength (a ++ b) = byteLength a + byteLength b := by
  induction a with
  | nil => simp [byteLength]
  | cons c cs ih => simp [byteLength, ih, Nat.add_assoc]

/-! ## Line ends -/

/-- Replaces a pattern from left to right. The next `skip` characters are those of a pattern that was
found already, and what stands in its place is not searched again. -/
def replaceFrom (pattern new : List Char) : Nat → List Char → List Char
  | _, [] => []
  | skip + 1, _ :: cs => replaceFrom pattern new skip cs
  | 0, c :: cs =>
    if pattern.isPrefixOf (c :: cs) then new ++ replaceFrom pattern new (pattern.length - 1) cs
    else c :: replaceFrom pattern new 0 cs

/-- Replaces a pattern, which is not empty, wherever it stands. -/
def replace (pattern new cs : List Char) : List Char :=
  replaceFrom pattern new 0 cs

/-- Every line end becomes one line feed: first where a carriage return has a line feed after it, then
where it stands alone. -/
def unifyLineEnds (cs : List Char) : List Char :=
  replace ['\r'] ['\n'] (replace ['\r', '\n'] ['\n'] cs)

section Replacement

variable {pattern new : List Char}

theorem replaceFrom_eq (skip : Nat) (cs : List Char) :
    replaceFrom pattern new skip cs = replace pattern new (cs.drop skip) := by
  induction cs generalizing skip with
  | nil => simp [replace, replaceFrom]
  | cons c cs ih =>
    cases skip with
    | zero => rfl
    | succ skip => exact ih skip

/-- Where the pattern stands, its replacement is put, and the search goes on behind it. -/
theorem replace_append (c : Char) (pattern new cs : List Char) :
    replace (c :: pattern) new (c :: pattern ++ cs) = new ++ replace (c :: pattern) new cs := by
  have hfound : (c :: pattern).isPrefixOf (c :: pattern ++ cs) :=
    List.isPrefixOf_iff_prefix.2 (List.prefix_append _ _)
  have hrest : replaceFrom (c :: pattern) new pattern.length (pattern ++ cs) =
      replace (c :: pattern) new cs := by
    rw [replaceFrom_eq, List.drop_left]
  rw [replace, List.cons_append, replaceFrom]
  exact (if_pos hfound).trans (congrArg (new ++ ·) hrest)

/-- Where it does not, the character stays. -/
theorem replace_cons {c : Char} {cs : List Char} (h : ¬ pattern <+: c :: cs) :
    replace pattern new (c :: cs) = c :: replace pattern new cs := by
  rw [replace, replaceFrom, if_neg (mt List.isPrefixOf_iff_prefix.1 h), replace]

end Replacement

theorem unifyLineEnds_pair (cs : List Char) :
    unifyLineEnds ('\r' :: '\n' :: cs) = '\n' :: unifyLineEnds cs := by
  have hpair := replace_append '\r' ['\n'] ['\n'] cs
  have hfeed : ¬ ['\r'] <+: '\n' :: replace ['\r', '\n'] ['\n'] cs := by simp
  simp only [List.cons_append, List.nil_append] at hpair
  rw [unifyLineEnds, hpair, replace_cons hfeed, unifyLineEnds]

theorem unifyLineEnds_return {cs : List Char} (h : cs.head? ≠ some '\n') :
    unifyLineEnds ('\r' :: cs) = '\n' :: unifyLineEnds cs := by
  have hlone : ¬ ['\r', '\n'] <+: '\r' :: cs := by
    rintro ⟨rest, hrest⟩
    rw [← (List.cons.inj hrest).2] at h
    exact h rfl
  -- the first replacement leaves the return where it is, and the second finds it
  rw [unifyLineEnds, replace_cons hlone]
  exact replace_append '\r' [] ['\n'] _

theorem unifyLineEnds_of_ne {c : Char} (h : c ≠ '\r') (cs : List Char) :
    unifyLineEnds (c :: cs) = c :: unifyLineEnds cs := by
  have hother (pattern rest : List Char) : ¬ '\r' :: pattern <+: c :: rest := by
    rintro ⟨more, hmore⟩
    exact h (List.cons.inj hmore).1.symm
  rw [unifyLineEnds, replace_cons (hother _ _), replace_cons (hother _ _), unifyLineEnds]

/-! ## From offsets to lines and columns -/

/-- A place in a text that only moves forward: the characters still ahead of it, and where it is. -/
structure LineCursor where
  ahead : List Char
  offset : Nat := 0
  line : UInt32 := 1
  column : UInt32 := 1
deriving DecidableEq

namespace LineCursor

/-- Steps over every character that ends at or before `target`. -/
def advance (target : Nat) : List Char → Nat → UInt32 → UInt32 → LineCursor
  | [], offset, line, column => ⟨[], offset, line, column⟩
  | c :: cs, offset, line, column =>
    if offset + c.utf8Size ≤ target then
      if c = '\n' then advance target cs (offset + c.utf8Size) (line + 1) 1
      else advance target cs (offset + c.utf8Size) line (column + 1)
    else ⟨c :: cs, offset, line, column⟩

/-- Moves to `target`, or to the end of the text if that comes first. A target that is not ahead
leaves the cursor where it is. -/
def locate (cursor : LineCursor) (target : Nat) : LineCursor :=
  advance target cursor.ahead cursor.offset cursor.line cursor.column

end LineCursor

/-! ## From lines and columns to offsets -/

/-- What follows the `n`-th line feed, with its offset counted from `offset`. -/
def skipLines : Nat → Nat → List Char → Option (Nat × List Char)
  | 0, offset, cs => some (offset, cs)
  | _ + 1, _, [] => none
  | n + 1, offset, c :: cs =>
    if c = '\n' then skipLines n (offset + c.utf8Size) cs
    else skipLines (n + 1) (offset + c.utf8Size) cs

/-- The byte offset of a line and column. A column counts characters from the start of its line and
may reach beyond the end of that line; there is no offset when it reaches beyond the text. Line or
column zero reads as one. -/
def offsetOf? (text : List Char) (line column : UInt32) : Option Nat := do
  let (start, rest) ← skipLines (line.toNat - 1) 0 text
  let skipped := column.toNat - 1
  if skipped < rest.length then some (start + byteLength (rest.take skipped)) else none

end GotoScript.Text
