import GotoScript.Proofs.Scanning.Joining

/-!
# Where scanning fails

A text is read from the left, item by item, until it ends or an item is never closed. Which item that is does
not depend on whether line ends are kept.

* `Unclosed` : a text that starts with an item which is never closed; `firstItem?_eq_none_iff` : the scanner takes
  no item there, and only there;
* `Items` : whole items, one after another; `Items.scanFrom_append` : scanning goes on behind them;
* `FailsAt` : the offset at which reading stops; `scan_eq_error_iff_failsAt` : it is the one that scanning reports;
* `scanFrom_blanks` : blanks are skipped, however they are parted; `Form.without_lineEnds` : what an item is when
  line ends are blanks;
* `scan_without_lineEnds` : the lexemes of a text without its line ends.
-/

namespace GotoScript.Lexeme

open Text (byteLength)

/-! ## Items that are never closed -/

/-- The text starts with a quote that no later quote closes, or with a block comment that has no closing mark. -/
inductive Unclosed : List Char → Prop where
  | quote {q : Char} {cs : List Char} (hq : isQuote q)
    (hopen : ∀ inner after, cs = inner ++ q :: after → ¬ QuoteBody q inner) : Unclosed (q :: cs)
  | comment {cs : List Char} (hopen : ¬ ['*', '/'] <:+: cs) : Unclosed ('/' :: '*' :: cs)

theorem closeQuote_eq_none_iff {q : Char} (hq : q ≠ '\\') (cs : List Char) :
    closeQuote q cs = none ↔ ∀ inner after, cs = inner ++ q :: after → ¬ QuoteBody q inner := by
  constructor
  · rintro h inner after rfl hbody
    rw [closeQuote_of_quoteBody hq hbody] at h
    cases h
  · intro hopen
    cases hclose : closeQuote q cs with
    | none => rfl
    | some found =>
      obtain ⟨inner, hinner, hbody⟩ := quoteBody_of_closeQuote hclose
      have hsplit : cs = inner ++ q :: found.2 := by
        rw [← closeQuote_split hclose, hinner, List.append_assoc]
        rfl
      exact absurd hbody (hopen inner found.2 hsplit)

theorem closeComment_eq_none_iff (cs : List Char) :
    closeComment cs = none ↔ ¬ ['*', '/'] <:+: cs := by
  fun_induction closeComment cs with
  | case1 => simp
  | case2 rest => exact iff_of_false (Option.some_ne_none _) fun h => h ⟨[], rest, rfl⟩
  | case3 c rest hno ih =>
    have hfront : ¬ ['*', '/'] <+: c :: rest := by
      rintro ⟨more, hmore⟩
      obtain ⟨rfl, hrest⟩ := List.cons.inj hmore
      exact hno more rfl hrest.symm
    rw [Option.map_eq_none_iff, ih, List.infix_cons_iff, or_iff_right hfront]

/-- The scanner takes no item where one is never closed, and only there. -/
theorem firstItem?_eq_none_iff (keep : Bool) (c : Char) (cs : List Char) :
    firstItem? keep c cs = none ↔ Unclosed (c :: cs) := by
  constructor
  · intro h
    unfold firstItem? at h
    split at h
    · cases h
    split at h
    · cases h
    split at h
    · next hc =>
      obtain ⟨rfl, hstar⟩ := hc
      obtain ⟨body, rfl⟩ := List.head?_eq_some_iff.1 hstar
      exact .comment ((closeComment_eq_none_iff body).1 (Option.map_eq_none_iff.1 h))
    split at h
    · next hq =>
      exact .quote hq ((closeQuote_eq_none_iff (isQuote_ne hq).2 cs).1 (Option.map_eq_none_iff.1 h))
    split at h
    · cases h
    split at h <;> cases h
  · intro h
    unfold firstItem?
    cases h with
    | quote hq hopen =>
      obtain ⟨hslash, hescape⟩ := isQuote_ne hq
      rw [if_neg (isQuote_not_blank keep hq), if_neg fun h => hslash h.1, if_neg fun h => hslash h.1,
        if_pos hq, (closeQuote_eq_none_iff hescape cs).2 hopen]
      rfl
    | @comment body hopen =>
      rw [if_neg (by simp [isBlank]), if_neg (by simp), if_pos ⟨rfl, rfl⟩, List.tail_cons,
        (closeComment_eq_none_iff body).2 hopen]
      rfl

/-! ## Up to an unclosed item -/

/-- Blanks, comments and lexemes, one after another and each as it is read where `rest` follows them. -/
inductive Items (keep : Bool) : List Char → List Char → Prop where
  | nil {rest : List Char} : Items keep [] rest
  | item {kind : Option Kind} {chars items rest : List Char} (hitem : Form keep kind chars (items ++ rest))
    (hitems : Items keep items rest) : Items keep (chars ++ items) rest

/-- Scanning goes on behind whole items as it would start there. -/
theorem Items.scanFrom_append {keep : Bool} {items rest : List Char} (h : Items keep items rest)
    (offset : Nat) :
    ∃ ls, scanFrom keep offset (items ++ rest) =
      (scanFrom keep (offset + byteLength items) rest).map (ls ++ ·) := by
  induction h generalizing offset with
  | nil => exact ⟨[], (id_map (scanFrom keep offset _)).symm⟩
  | @item kind chars items rest hitem _ ih =>
    obtain ⟨ls, hls⟩ := ih (offset + byteLength chars)
    refine ⟨Item.lexemes ⟨kind, chars, items ++ rest⟩ offset ++ ls, ?_⟩
    rw [List.append_assoc, Lexeme.scanFrom_append hitem, hls, Text.byteLength_append, ← Nat.add_assoc]
    cases scanFrom keep (offset + byteLength chars + byteLength items) rest with
    | error e => rfl
    | ok later => exact congrArg Except.ok (List.append_assoc ..).symm

/-- A text that cannot be scanned is made of whole items up to one that is never closed. -/
theorem exists_unclosed_of_scanFrom {keep : Bool} {cs : List Char} {offset e : Nat}
    (h : scanFrom keep offset cs = .error e) :
    ∃ items rest, cs = items ++ rest ∧ e = offset + byteLength items ∧ Items keep items rest ∧
      Unclosed rest := by
  induction cs using item_induction keep generalizing offset with
  | hnil =>
    rw [scanFrom] at h
    cases h
  | hunclosed c cs hnone =>
    rw [scanFrom_of_unclosed hnone] at h
    cases h
    exact ⟨[], c :: cs, rfl, rfl, .nil, (firstItem?_eq_none_iff keep c cs).1 hnone⟩
  | hitem kind chars rest hform ih =>
    rw [Lexeme.scanFrom_append hform] at h
    cases hrest : scanFrom keep (offset + byteLength chars) rest with
    | ok later =>
      rw [hrest] at h
      cases h
    | error e' =>
      rw [hrest] at h
      cases h
      obtain ⟨items, rest, rfl, rfl, hitems, hunclosed⟩ := ih hrest
      refine ⟨chars ++ items, rest, (List.append_assoc ..).symm, ?_, .item hform hitems, hunclosed⟩
      rw [Text.byteLength_append, Nat.add_assoc]

/-- Read from the left, the text is made of whole items up to the offset, and the item that starts there is
never closed. -/
def FailsAt (keep : Bool) (text : List Char) (offset : Nat) : Prop :=
  ∃ before rest, text = before ++ rest ∧ offset = byteLength before ∧ Items keep before rest ∧ Unclosed rest

theorem scan_eq_error_iff_failsAt {keep : Bool} {text : List Char} {offset : Nat} :
    scan keep text = .error offset ↔ FailsAt keep text offset := by
  unfold scan
  constructor
  · intro h
    obtain ⟨before, rest, htext, hoffset, hitems, hunclosed⟩ := exists_unclosed_of_scanFrom h
    exact ⟨before, rest, htext, by rw [hoffset, Nat.zero_add], hitems, hunclosed⟩
  · rintro ⟨before, rest, rfl, rfl, hitems, hunclosed⟩
    obtain ⟨ls, hls⟩ := hitems.scanFrom_append 0
    rw [hls, Nat.zero_add]
    cases rest with
    | nil => cases hunclosed
    | cons c cs =>
      rw [scanFrom_of_unclosed ((firstItem?_eq_none_iff keep c cs).2 hunclosed)]
      rfl

/-- Scanning fails exactly where an item starts that is never closed, which is at one offset at most, and
succeeds in every other text. -/
theorem scan_fails_iff_unclosed (keep : Bool) (text : List Char) :
    (∀ offset, scan keep text = .error offset ↔ FailsAt keep text offset) ∧
      (∀ a b, FailsAt keep text a → FailsAt keep text b → a = b) ∧
      ((∃ ls, scan keep text = .ok ls) ↔ ∀ offset, ¬ FailsAt keep text offset) := by
  refine ⟨fun _ => scan_eq_error_iff_failsAt, fun a b ha hb => ?_, ?_⟩
  · rw [← scan_eq_error_iff_failsAt] at ha hb
    exact Except.error.inj (ha.symm.trans hb)
  · simp only [← scan_eq_error_iff_failsAt]
    cases scan keep text with
    | error e => exact iff_of_false (fun ⟨ls, h⟩ => by cases h) fun h => h e rfl
    | ok ls => exact iff_of_true ⟨ls, rfl⟩ fun e h => by cases h

/-- Openers in a comment and in a text do not count, and the mark that opens a comment does not close it. -/
example : scan true "/*'*/ \"\\\"/*\" é /*/".toList = .error 16 := by cbv

/-! ## With and without line ends -/

/-- Blanks are skipped up to a character that is none. -/
theorem scanFrom_blank_run {keep : Bool} {blanks rest : List Char} (hall : ∀ c ∈ blanks, isBlank keep c)
    (hnext : ∀ c ∈ rest.head?, isBlank keep c = false) (offset : Nat) :
    scanFrom keep offset (blanks ++ rest) = scanFrom keep (offset + byteLength blanks) rest := by
  cases blanks with
  | nil => rfl
  | cons c cs =>
    rw [scanFrom_append (.blanks (List.cons_ne_nil c cs) hall hnext)]
    exact id_map (scanFrom keep (offset + byteLength (c :: cs)) rest)

/-- Blanks are skipped, also when more of them follow. -/
theorem scanFrom_blanks {keep : Bool} {blanks : List Char} (hall : ∀ c ∈ blanks, isBlank keep c)
    (rest : List Char) (offset : Nat) :
    scanFrom keep offset (blanks ++ rest) = scanFrom keep (offset + byteLength blanks) rest := by
  have hmore : ∀ c ∈ rest.takeWhile (isBlank keep), isBlank keep c :=
    List.all_eq_true.1 List.all_takeWhile
  have hnext : ∀ c ∈ (rest.dropWhile (isBlank keep)).head?, isBlank keep c = false :=
    fun c => head?_dropWhile_false
  -- both sides go on behind the whole run of blanks
  rw [← List.takeWhile_append_dropWhile (p := isBlank keep) (l := rest), ← List.append_assoc,
    scanFrom_blank_run (fun c hc => (List.mem_append.1 hc).elim (hall c) (hmore c)) hnext,
    scanFrom_blank_run hmore hnext, Text.byteLength_append, Nat.add_assoc]

/-- When line ends are blanks, a line end and a run of blanks are skipped, and every other item stays what it
is. -/
theorem Form.without_lineEnds {kind : Option Kind} {chars rest : List Char} (h : Form true kind chars rest) :
    (kind = none ∨ kind = some .lineEnd) ∧ (∀ c ∈ chars, isBlank false c) ∨
      kind ≠ some .lineEnd ∧ Form false kind chars rest := by
  cases h with
  | blanks hne hall hnext =>
    refine .inl ⟨.inl rfl, fun c hc => ?_⟩
    have hblank := hall c hc
    simp only [isBlank, Bool.not_true, Bool.and_false, Bool.or_false] at hblank
    simp only [isBlank, hblank, Bool.true_or]
  | lineComment hbody hnext => exact .inr ⟨by simp, .lineComment hbody hnext⟩
  | blockComment hbody => exact .inr ⟨by simp, .blockComment hbody⟩
  | word hne hall hnext => exact .inr ⟨by simp, .word hne hall hnext⟩
  | quoted hq hbody => exact .inr ⟨by simp, .quoted hq hbody⟩
  | lineEnd => exact .inl ⟨.inr rfl, by simp [isBlank]⟩
  | @mark c _ hc hnext =>
    have hblank : isBlank false c = false := by
      simpa [isBlank, hc.lineEnd] using hc.blank
    exact .inr ⟨by simp, .mark ⟨hblank, hc.quote, hc.word, hc.lineEnd⟩ hnext⟩

/-- The lexemes other than line ends. -/
def withoutLineEnds (ls : List Lexeme) : List Lexeme :=
  ls.filter (·.kind ≠ .lineEnd)

theorem withoutLineEnds_cons_of_ne {l : Lexeme} (h : l.kind ≠ .lineEnd) (ls : List Lexeme) :
    withoutLineEnds (l :: ls) = l :: withoutLineEnds ls :=
  List.filter_cons_of_pos (decide_eq_true h)

theorem scanFrom_without_lineEnds (cs : List Char) (offset : Nat) :
    scanFrom false offset cs = (scanFrom true offset cs).map withoutLineEnds := by
  -- item by item as line ends are kept; without them a line end is part of a run of blanks
  induction cs using item_induction true generalizing offset with
  | hnil => rw [scanFrom, scanFrom]; rfl
  | hunclosed c cs hnone =>
    have hnone' : firstItem? false c cs = none :=
      (firstItem?_eq_none_iff false c cs).2 ((firstItem?_eq_none_iff true c cs).1 hnone)
    rw [scanFrom_of_unclosed hnone, scanFrom_of_unclosed hnone']
    rfl
  | hitem kind chars rest h ih =>
    rw [scanFrom_append h]
    rcases h.without_lineEnds with ⟨hkind, hblanks⟩ | ⟨hkind, hform⟩
    · rw [scanFrom_blanks hblanks, ih]
      cases scanFrom true (offset + byteLength chars) rest with
      | error e => rfl
      | ok later => rcases hkind with rfl | rfl <;> rfl
    · rw [scanFrom_append hform, ih]
      cases scanFrom true (offset + byteLength chars) rest with
      | error e => rfl
      | ok later =>
        cases kind with
        | none => rfl
        | some kind =>
          have hkept : kind ≠ .lineEnd := fun h => hkind (congrArg some h)
          exact congrArg Except.ok (withoutLineEnds_cons_of_ne hkept later).symm

/-- Whether line ends are kept makes no other difference: without them a text has the other lexemes, at the same
offsets, or fails at the same offset. -/
theorem scan_without_lineEnds (text : List Char) :
    scan false text = (scan true text).map withoutLineEnds :=
  scanFrom_without_lineEnds text 0

end GotoScript.Lexeme
