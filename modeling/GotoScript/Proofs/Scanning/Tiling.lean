import Mathlib
import GotoScript.Proofs.Scanning.Items

/-!
# The lexemes of a text tile it

* `Gap keep gap rest` : `gap` is made of blanks and whole comments where `rest` follows it;
* `Tiles keep before text lexemes` : after `before`, the text is gaps and lexemes in turn, each lexeme
  at the offset it carries;
* `tiles_of_scanFrom` : scanning gives such a sequence, by induction on the scan;
* `Tiles.slice`, `Tiles.pairwise` : where the lexemes of such a sequence stand;
* `scan_tiles` : the whole statement for `scan`.
-/

namespace GotoScript.Lexeme

open Text (byteLength)

/-- The characters of a lexeme. -/
def chars (l : Lexeme) : List Char := l.text.toList

@[simp]
theorem chars_mk_ofList (kind : Kind) (cs : List Char) (offset : Nat) :
    chars ⟨kind, String.ofList cs, offset⟩ = cs :=
  String.toList_ofList

/-- The offset at which a lexeme ends. -/
def stop (l : Lexeme) : Nat := l.offset + byteLength l.chars

/-- Blanks and whole comments, one after another. -/
inductive Gap (keep : Bool) : List Char → List Char → Prop where
  | nil {rest : List Char} : Gap keep [] rest
  | item {skipped gap rest : List Char} (hitem : Form keep none skipped (gap ++ rest))
    (hgap : Gap keep gap rest) : Gap keep (skipped ++ gap) rest

/-- A lexeme where it stands: at its offset, of the form its kind asks for, and for a word with no word
character before it. -/
structure Placed (keep : Bool) (before : List Char) (l : Lexeme) (after : List Char) : Prop where
  offset : l.offset = byteLength before
  form : Form keep (some l.kind) l.chars after
  start : l.kind = .word → ∀ c ∈ before.getLast?, isWordChar c = false

/-- After `before`, a text is made of gaps and lexemes in turn. -/
inductive Tiles (keep : Bool) : List Char → List Char → List Lexeme → Prop where
  | done {before gap : List Char} (hgap : Gap keep gap []) : Tiles keep before gap []
  | lexeme {before gap after : List Char} {l : Lexeme} {ls : List Lexeme}
    (hgap : Gap keep gap (l.chars ++ after)) (hl : Placed keep (before ++ gap) l after)
    (hls : Tiles keep (before ++ gap ++ l.chars) after ls) :
    Tiles keep before (gap ++ (l.chars ++ after)) (l :: ls)

/-! ## Scanning tiles -/

theorem Tiles.skip {keep : Bool} {before skipped rest : List Char} {ls : List Lexeme}
    (hitem : Form keep none skipped rest) (h : Tiles keep (before ++ skipped) rest ls) :
    Tiles keep before (skipped ++ rest) ls := by
  cases h with
  | done hgap => exact .done (.item (by simpa using hitem) hgap)
  | @lexeme _ gap after l ls hgap hl hls =>
    rw [← List.append_assoc]
    refine .lexeme (.item hitem hgap) ?_ ?_
    · simpa using hl
    · simpa using hls

theorem Tiles.take {keep : Bool} {before after : List Char} {l : Lexeme} {ls : List Lexeme}
    (hl : Placed keep before l after) (h : Tiles keep (before ++ l.chars) after ls) :
    Tiles keep before (l.chars ++ after) (l :: ls) := by
  rw [← List.nil_append (l.chars ++ after)]
  refine .lexeme .nil ?_ ?_
  · simpa using hl
  · simpa using h

/-- An item with a kind is placed where the text before it ends, unless a word runs across. -/
theorem Placed.of_form {keep : Bool} {kind : Kind} {before item rest : List Char}
    (hcut : Apart before (item ++ rest)) (h : Form keep (some kind) item rest) :
    Placed keep before ⟨kind, String.ofList item, byteLength before⟩ rest := by
  refine ⟨rfl, by rwa [chars_mk_ofList], ?_⟩
  rintro rfl c hc
  cases h with
  | word hne hall _ =>
    -- a word starts with a word character, so no other stands before it
    obtain ⟨d, ds, rfl⟩ := List.exists_cons_of_ne_nil hne
    cases hword : isWordChar c with
    | false => rfl
    | true => exact (hall d (by simp)).symm.trans (hcut c hc d rfl hword)

theorem Apart.of_form {keep : Bool} {kind : Option Kind} {before item rest : List Char}
    (h : Form keep kind item rest) : Apart (before ++ item) rest := by
  intro c hc
  rw [List.getLast?_append, List.getLast?_eq_some_getLast h.ne_nil] at hc
  exact h.apart c (by rwa [List.getLast?_eq_some_getLast h.ne_nil])

/-- What the scanner reads after `before` tiles the rest of the text. That no word runs across the
place it has come to is what makes the words whole. -/
theorem tiles_of_scanFrom {keep : Bool} {offset : Nat} {cs before : List Char} {ls : List Lexeme}
    (hoff : offset = byteLength before) (hcut : Apart before cs)
    (h : scanFrom keep offset cs = .ok ls) : Tiles keep before cs ls := by
  fun_induction scanFrom keep offset cs generalizing before ls with
  | case1 =>
    cases h
    exact .done .nil
  | case2 => cases h
  | case3 offset c cs item hitem ih =>
    have hform : Form keep item.kind item.chars item.rest := firstItem?_form hitem
    obtain ⟨tail, hchars, htail⟩ := firstItem?_split hitem
    have hsplit : c :: cs = item.chars ++ item.rest := by rw [hchars, List.cons_append, htail]
    rw [hsplit] at hcut ⊢
    cases hlater : scanFrom keep (offset + byteLength item.chars) item.rest with
    | error e =>
      rw [hlater] at h
      cases h
    | ok later =>
      rw [hlater] at h
      have hrest : Tiles keep (before ++ item.chars) item.rest later :=
        ih (by simp [hoff]) (.of_form hform) hlater
      obtain ⟨kind, chars, rest⟩ := item
      cases kind with
      | none =>
        cases h
        exact .skip hform hrest
      | some kind =>
        cases h
        have hl := Placed.of_form hcut hform
        rw [← hoff] at hl
        have htaken := Tiles.take hl (by rwa [chars_mk_ofList])
        rwa [chars_mk_ofList] at htaken

theorem tiles_of_scan {keep : Bool} {text : List Char} {ls : List Lexeme}
    (h : scan keep text = .ok ls) : Tiles keep [] text ls :=
  tiles_of_scanFrom rfl (by simp [Apart]) h

/-! ## Where the lexemes stand -/

/-- Every lexeme is a slice of the text, placed where its offset says. -/
theorem Tiles.slice {keep : Bool} {before text : List Char} {ls : List Lexeme}
    (h : Tiles keep before text ls) :
    ∀ l ∈ ls, ∃ pre post, before ++ text = pre ++ (l.chars ++ post) ∧ Placed keep pre l post := by
  induction h with
  | done => simp
  | @lexeme before gap after l ls _ hl _ ih =>
    intro m hm
    rcases List.mem_cons.1 hm with rfl | hm
    · exact ⟨before ++ gap, after, by simp, hl⟩
    · obtain ⟨pre, post, he, hplaced⟩ := ih m hm
      exact ⟨pre, post, by simpa using he, hplaced⟩

theorem byteLength_pos {cs : List Char} (h : cs ≠ []) : 0 < byteLength cs := by
  cases cs with
  | nil => exact absurd rfl h
  | cons c cs =>
    have := c.utf8Size_pos
    simp only [Text.byteLength]
    omega

theorem Placed.lt_stop {keep : Bool} {before after : List Char} {l : Lexeme}
    (h : Placed keep before l after) : l.offset < l.stop := by
  have := byteLength_pos h.form.ne_nil
  unfold stop
  omega

/-- No lexeme starts before the place the tiling starts at, and no word at that place if a word
character stands before it. -/
theorem Tiles.le_offset {keep : Bool} {before text : List Char} {ls : List Lexeme}
    (h : Tiles keep before text ls) :
    ∀ l ∈ ls, byteLength before ≤ l.offset ∧
      (l.kind = .word → (∃ c ∈ before.getLast?, isWordChar c) → byteLength before < l.offset) := by
  induction h with
  | done => simp
  | @lexeme before gap after l ls _ hl _ ih =>
    intro m hm
    have hoff := hl.offset
    rw [Text.byteLength_append] at hoff
    rcases List.mem_cons.1 hm with rfl | hm
    · refine ⟨by omega, ?_⟩
      rintro hword ⟨c, hc, hcw⟩
      cases gap with
      | nil =>
        have := hl.start hword c (by simpa using hc)
        simp [hcw] at this
      | cons d ds =>
        have := byteLength_pos (List.cons_ne_nil d ds)
        omega
    · have hle := (ih m hm).1
      have := byteLength_pos hl.form.ne_nil
      simp only [Text.byteLength_append] at hle
      exact ⟨by omega, fun _ _ => by omega⟩

/-- Of two lexemes the later one starts after the earlier one starts, not before it ends, and if both
are words, after its end. -/
def Before (a b : Lexeme) : Prop :=
  a.offset < b.offset ∧ a.stop ≤ b.offset ∧ (a.kind = .word → b.kind = .word → a.stop < b.offset)

theorem Tiles.pairwise {keep : Bool} {before text : List Char} {ls : List Lexeme}
    (h : Tiles keep before text ls) : ls.Pairwise Before := by
  induction h with
  | done => exact .nil
  | @lexeme before gap after l ls _ hl hls ih =>
    refine .cons (fun m hm => ?_) ih
    obtain ⟨hle, hword⟩ := hls.le_offset m hm
    have hstop : l.stop = byteLength (before ++ gap ++ l.chars) := by
      rw [stop, hl.offset, ← Text.byteLength_append]
    rw [← hstop] at hle hword
    refine ⟨by have := hl.lt_stop; omega, hle, fun hkind hm' => hword hm' ?_⟩
    -- both are words: the earlier one ends in a word character
    have hform := hl.form
    rw [hkind] at hform
    cases hform with
    | word hne hall _ =>
      refine ⟨l.chars.getLast hne, ?_, hall _ (List.getLast_mem hne)⟩
      simp [List.getLast?_append, List.getLast?_eq_some_getLast hne]

/-- Where the scan succeeds, its lexemes tile the text: gaps and lexemes make up the whole of it, each
lexeme is the slice at its offset and has the form of its kind, and they ascend without overlap, two
words never touching. -/
theorem scan_tiles (keep : Bool) (text : List Char) (ls : List Lexeme)
    (h : scan keep text = .ok ls) :
    Tiles keep [] text ls ∧
      (∀ l ∈ ls, ∃ before after,
        text = before ++ (l.chars ++ after) ∧ Placed keep before l after) ∧
      ls.Pairwise Before := by
  have htiles : Tiles keep [] text ls := tiles_of_scanFrom rfl (by simp [Apart]) h
  exact ⟨htiles, htiles.slice, htiles.pairwise⟩

/-- A quote in a comment, an escaped quote, and two words with only a comment between them. -/
def commented : List Char := "ab/*'*/cd=+'é\\'/*'\n//x".toList

def commentedLexemes : List Lexeme :=
  [⟨.word, "ab", 0⟩, ⟨.word, "cd", 7⟩, ⟨.mark, "=", 9⟩, ⟨.mark, "+", 10⟩,
    ⟨.quoted, "'é\\'/*'", 11⟩, ⟨.lineEnd, "\n", 19⟩]

theorem scan_tiles_commented :
    scan true commented = .ok commentedLexemes ∧
      Tiles true [] commented commentedLexemes ∧ commentedLexemes.Pairwise Before := by
  have hscan : scan true commented = .ok commentedLexemes := by cbv
  have htiles := scan_tiles true commented commentedLexemes hscan
  exact ⟨hscan, htiles.1, htiles.2.2⟩

end GotoScript.Lexeme
