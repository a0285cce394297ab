import GotoScript.Proofs.Language.TextLiterals

/-!
# Escapes of quoted texts

The scanner looks for the end of a quoted text and passes over escapes; the parser reads the escapes and has no end to
look for. Each pairs a backslash with the character after it, in a loop of its own. Here the pairs are told without a
loop: a backslash is the first of a pair if an even number of backslashes stands directly before it.

* `Literal.trailing` : the number of backslashes at the end of a text; `Literal.EscapeAt` : the pairs of a text;
* `Literal.FirstUnknown` : the first pair that stands for nothing; `Literal.Reads` : the characters that a text of
  known pairs stands for;
* `Literal.unescape_eq_ok_iff`, `Literal.unescape_eq_error_iff` : what is read between two quotes;
* `Literal.quoted_text_reads` : what the parser makes of any quoted text that the scanner found.
-/

namespace GotoScript.Literal

open Text (byteLength)

/-! ## Pairs -/

/-- The number of backslashes at the end of a text. -/
def trailing (cs : List Char) : Nat :=
  (cs.reverse.takeWhile (· = '\\')).length

/-- A backslash at `i` and the character `c` after it are a pair. The backslashes before them make pairs of their
own. -/
structure EscapeAt (cs : List Char) (i : Nat) (c : Char) : Prop where
  backslash : cs[i]? = some '\\'
  next : cs[i + 1]? = some c
  apart : trailing (cs.take i) % 2 = 0

/-- Whole pairs in front of a text do not change how it pairs. -/
theorem trailing_append_mod {before : List Char} (h : trailing before % 2 = 0) (cs : List Char) :
    trailing (before ++ cs) % 2 = trailing cs % 2 := by
  unfold trailing at h ⊢
  rw [List.reverse_append, List.takeWhile_append]
  split
  · next hall =>
    rw [List.length_append, hall]
    omega
  · rfl

theorem escapeAt_append {before cs : List Char} (h : trailing before % 2 = 0) {i : Nat} {c : Char} :
    EscapeAt (before ++ cs) (before.length + i) c ↔ EscapeAt cs i c := by
  have hget (j : Nat) : (before ++ cs)[before.length + j]? = cs[j]? := by
    rw [List.getElem?_append_right (by omega), Nat.add_sub_cancel_left]
  have htake : (before ++ cs).take (before.length + i) = before ++ cs.take i := List.take_length_add_append i
  constructor
  · rintro ⟨hback, hnext, hapart⟩
    rw [htake, trailing_append_mod h] at hapart
    exact ⟨(hget i).symm.trans hback, (hget (i + 1)).symm.trans hnext, hapart⟩
  · rintro ⟨hback, hnext, hapart⟩
    refine ⟨(hget i).trans hback, (hget (i + 1)).trans hnext, ?_⟩
    rw [htake, trailing_append_mod h]
    exact hapart

theorem trailing_pair (c : Char) : trailing ['\\', c] % 2 = 0 := by
  by_cases hc : c = '\\' <;> simp [trailing, hc]

theorem trailing_plain {c : Char} (hc : c ≠ '\\') : trailing [c] % 2 = 0 := by
  simp [trailing, hc]

theorem escapeAt_pair_iff {c d : Char} {cs : List Char} {i : Nat} :
    EscapeAt ('\\' :: c :: cs) i d ↔ (i = 0 ∧ d = c) ∨ ∃ j, i = j + 2 ∧ EscapeAt cs j d := by
  have happend (j : Nat) : EscapeAt ('\\' :: c :: cs) (j + 2) d ↔ EscapeAt cs j d := by
    rw [Nat.add_comm]
    exact escapeAt_append (trailing_pair c)
  constructor
  · intro h
    rcases i with _ | _ | j
    · exact .inl ⟨rfl, (Option.some.inj h.next).symm⟩
    · -- the backslash before it takes this one along
      exact absurd h.apart (show ¬ trailing ['\\'] % 2 = 0 by decide)
    · exact .inr ⟨j, rfl, (happend j).1 h⟩
  · rintro (⟨rfl, rfl⟩ | ⟨j, rfl, h⟩)
    · exact ⟨rfl, rfl, rfl⟩
    · exact (happend j).2 h

theorem escapeAt_plain_iff {c d : Char} {cs : List Char} {i : Nat} (hc : c ≠ '\\') :
    EscapeAt (c :: cs) i d ↔ ∃ j, i = j + 1 ∧ EscapeAt cs j d := by
  have happend (j : Nat) : EscapeAt (c :: cs) (j + 1) d ↔ EscapeAt cs j d := by
    rw [Nat.add_comm]
    exact escapeAt_append (trailing_plain hc)
  constructor
  · intro h
    cases i with
    | zero => exact absurd (Option.some.inj h.backslash) hc
    | succ j => exact ⟨j, rfl, (happend j).1 h⟩
  · rintro ⟨j, rfl, h⟩
    exact (happend j).2 h

/-! ## Pairs that stand for nothing -/

/-- The characters that make a known pair with a backslash. -/
def escapeNames : List Char := ['r', 'n', 't', '"', '\'', '\\']

theorem escaped?_eq_none_iff {c : Char} : escaped? c = none ↔ c ∉ escapeNames := by
  unfold escaped? escapeNames
  split_ifs <;> simp_all
  tauto

/-- The first pair that stands for nothing has the character `c`. -/
def FirstUnknown (cs : List Char) (c : Char) : Prop :=
  ∃ i, EscapeAt cs i c ∧ c ∉ escapeNames ∧ ∀ j d, j < i → EscapeAt cs j d → d ∈ escapeNames

theorem not_firstUnknown_nil {c : Char} : ¬ FirstUnknown [] c := by
  rintro ⟨i, h, -⟩
  cases h.backslash

theorem firstUnknown_plain_iff {c d : Char} {cs : List Char} (hc : c ≠ '\\') :
    FirstUnknown (c :: cs) d ↔ FirstUnknown cs d := by
  constructor
  · rintro ⟨i, h, hd, hbefore⟩
    obtain ⟨j, rfl, hj⟩ := (escapeAt_plain_iff hc).1 h
    exact ⟨j, hj, hd, fun k e hk he => hbefore (k + 1) e (by omega) ((escapeAt_plain_iff hc).2 ⟨k, rfl, he⟩)⟩
  · rintro ⟨j, h, hd, hbefore⟩
    refine ⟨j + 1, (escapeAt_plain_iff hc).2 ⟨j, rfl, h⟩, hd, fun k e hk he => ?_⟩
    obtain ⟨k, rfl, hk'⟩ := (escapeAt_plain_iff hc).1 he
    exact hbefore k e (by omega) hk'

theorem firstUnknown_known_iff {c d : Char} {cs : List Char} (hc : c ∈ escapeNames) :
    FirstUnknown ('\\' :: c :: cs) d ↔ FirstUnknown cs d := by
  constructor
  · rintro ⟨i, h, hd, hbefore⟩
    rcases escapeAt_pair_iff.1 h with ⟨-, rfl⟩ | ⟨j, rfl, hj⟩
    · exact absurd hc hd
    · exact ⟨j, hj, hd, fun k e hk he => hbefore (k + 2) e (by omega) (escapeAt_pair_iff.2 (.inr ⟨k, rfl, he⟩))⟩
  · rintro ⟨j, h, hd, hbefore⟩
    refine ⟨j + 2, escapeAt_pair_iff.2 (.inr ⟨j, rfl, h⟩), hd, fun k e hk he => ?_⟩
    rcases escapeAt_pair_iff.1 he with ⟨-, rfl⟩ | ⟨k, rfl, hk'⟩
    · exact hc
    · exact hbefore k e (by omega) hk'

theorem firstUnknown_unknown_iff {c d : Char} {cs : List Char} (hc : c ∉ escapeNames) :
    FirstUnknown ('\\' :: c :: cs) d ↔ d = c := by
  constructor
  · rintro ⟨i, h, -, hbefore⟩
    rcases escapeAt_pair_iff.1 h with ⟨-, rfl⟩ | ⟨j, rfl, -⟩
    · rfl
    · exact absurd (hbefore 0 c (by omega) (escapeAt_pair_iff.2 (.inl ⟨rfl, rfl⟩))) hc
  · rintro rfl
    exact ⟨0, escapeAt_pair_iff.2 (.inl ⟨rfl, rfl⟩), hc, fun j e hj _ => absurd hj (Nat.not_lt_zero j)⟩

/-! ## Reading -/

/-- What a text stands for that is made of known pairs and other characters. -/
inductive Reads : List Char → List Char → Prop where
  | nil : Reads [] []
  | plain {c : Char} {cs out : List Char} (hc : c ≠ '\\') (h : Reads cs out) : Reads (c :: cs) (c :: out)
  | pair {c d : Char} {cs out : List Char} (hd : escaped? c = some d) (h : Reads cs out) :
    Reads ('\\' :: c :: cs) (d :: out)

theorem unescape_eq_ok_iff {cs out : List Char} : unescape cs = .ok out ↔ Reads cs out := by
  constructor
  · intro h
    fun_induction unescape cs generalizing out with
    | case1 =>
      cases h
      exact .nil
    | case2 => cases h
    | case3 c rest hnone => cases h
    | case4 c rest d hd ih =>
      cases hrest : unescape rest with
      | error fault =>
        rw [hrest] at h
        cases h
      | ok more =>
        rw [hrest] at h
        cases h
        exact .pair hd (ih hrest)
    | case5 c rest hlone hpair ih =>
      have hc : c ≠ '\\' := by
        rintro rfl
        cases rest with
        | nil => exact hlone rfl rfl
        | cons d ds => exact hpair d ds rfl rfl
      cases hrest : unescape rest with
      | error fault =>
        rw [hrest] at h
        cases h
      | ok more =>
        rw [hrest] at h
        cases h
        exact .plain hc (ih hrest)
  · intro h
    induction h with
    | nil => rfl
    | plain hc _ ih =>
      rw [unescape_of_ne hc, ih]
      rfl
    | pair hd _ ih =>
      rw [unescape, hd, ih]
      rfl

theorem text_eq_ok_iff {t : Token} {s : String} :
    text t = .ok s ↔ unescape (unquote t.text.toList) = .ok s.toList := by
  unfold text
  cases unescape (unquote t.text.toList) with
  | error fault => simp
  | ok cs => simp [String.ofList_eq]

theorem text_eq_error_iff {t : Token} {e : CompileError} :
    text t = .error e ↔
      ∃ fault, unescape (unquote t.text.toList) = .error fault ∧ e = .atToken .invalidEscape fault.message t := by
  unfold text
  cases unescape (unquote t.text.toList) with
  | error fault => simp [eq_comm]
  | ok cs => simp

section quoteBody

variable {q : Char} {inner : List Char}

/-- Between two quotes all backslashes are paired: none is left over at the end. -/
theorem trailing_of_quoteBody (h : Lexeme.QuoteBody q inner) : trailing inner % 2 = 0 := by
  induction h with
  | nil => rfl
  | @escape c cs _ ih => exact (trailing_append_mod (trailing_pair c) cs).trans ih
  | @plain c cs hc _ _ ih => exact (trailing_append_mod (trailing_plain hc) cs).trans ih

/-- Between two quotes, reading fails at the first pair that stands for nothing, and nowhere else. -/
theorem unescape_eq_error_iff (h : Lexeme.QuoteBody q inner) {fault : EscapeFault} :
    unescape inner = .error fault ↔ ∃ c, FirstUnknown inner c ∧ fault = .unknown c := by
  induction h with
  | nil =>
    constructor
    · rintro ⟨⟩
    · rintro ⟨c, hc, -⟩
      exact absurd hc not_firstUnknown_nil
  | @escape c cs _ ih =>
    rw [unescape]
    cases hc : escaped? c with
    | none =>
      simp only [firstUnknown_unknown_iff (escaped?_eq_none_iff.1 hc), exists_eq_left, Except.error.injEq]
      exact eq_comm
    | some d =>
      have hknown : c ∈ escapeNames := by
        by_contra hno
        rw [escaped?_eq_none_iff.2 hno] at hc
        cases hc
      simp only [firstUnknown_known_iff hknown, ← ih]
      cases unescape cs <;> simp [Except.map]
  | @plain c cs hc _ _ ih =>
    rw [unescape_of_ne hc]
    simp only [firstUnknown_plain_iff hc, ← ih]
    cases unescape cs <;> simp [Except.map]

/-- Taking away the first and the last byte of a quoted text takes away its quotes. -/
theorem unquote_quoted (hq : Lexeme.isQuote q) (inner : List Char) : unquote (q :: (inner ++ [q])) = inner := by
  have hsize : q.utf8Size = 1 := by rcases quote_cases hq with rfl | rfl <;> rfl
  unfold unquote
  simp [hsize]

theorem byteLength_quoted (hq : Lexeme.isQuote q) (inner : List Char) :
    byteLength (q :: (inner ++ [q])) = 1 + byteLength inner + 1 := by
  have hsize : q.utf8Size = 1 := by rcases quote_cases hq with rfl | rfl <;> rfl
  rw [byteLength, Text.byteLength_append, byteLength, byteLength, hsize]
  omega

end quoteBody

/-- Whatever the scanner finds as a quoted text, the parser takes off its two quotes, each of one byte, and what is left
has no backslash without a partner. It reads as the characters that its pairs and its other characters stand for, unless
one of its pairs stands for nothing; then the error names the first such pair. -/
theorem quoted_text_reads (keep : Bool) (source : List Char) (ls : List Lexeme) (l : Lexeme) (t : Token)
    (hscan : Lexeme.scan keep source = .ok ls) (hl : l ∈ ls) (hkind : l.kind = .quoted) (ht : t.text = l.text) :
    ∃ q inner, Lexeme.isQuote q ∧ t.text.toList = q :: (inner ++ [q]) ∧ unquote t.text.toList = inner ∧
      byteLength t.text.toList = 1 + byteLength inner + 1 ∧ trailing inner % 2 = 0 ∧
      unescape inner ≠ .error .unfinished ∧ (∀ s, text t = .ok s ↔ Reads inner s.toList) ∧
      ∀ e, text t = .error e ↔ ∃ c, FirstUnknown inner c ∧
        e = .atToken .invalidEscape ("invalid escape sequence: \\" ++ String.singleton c) t := by
  obtain ⟨pre, post, -, hplaced⟩ := (Lexeme.tiles_of_scan hscan).slice l hl
  have hform := hplaced.form
  rw [hkind, Lexeme.chars, ← ht] at hform
  generalize htext : t.text.toList = chars at hform
  cases hform with
  | @quoted q inner _ hq hbody =>
    have hunquote : unquote t.text.toList = inner := by rw [htext, unquote_quoted hq]
    refine ⟨q, inner, hq, rfl, htext ▸ hunquote, byteLength_quoted hq inner, trailing_of_quoteBody hbody, ?_,
      fun s => ?_, fun e => ?_⟩
    · intro hunfinished
      obtain ⟨c, -, hc⟩ := (unescape_eq_error_iff hbody).1 hunfinished
      cases hc
    · rw [text_eq_ok_iff, hunquote, unescape_eq_ok_iff]
    · rw [text_eq_error_iff, hunquote]
      simp only [unescape_eq_error_iff hbody]
      constructor
      · rintro ⟨_, ⟨c, hc, rfl⟩, rfl⟩
        exact ⟨c, hc, rfl⟩
      · rintro ⟨c, hc, rfl⟩
        exact ⟨.unknown c, ⟨c, hc, rfl⟩, rfl⟩

/-- An escaped quote before a letter of two bytes, and a text in which two pairs stand for nothing. The error names the
first of them; the two backslashes before it are a pair of their own. -/
theorem quoted_text_reads_unknown :
    let token (text : String) : Token := ⟨text, ⟨"main", 1, 1⟩, 1⟩
    let known := token "'\\'é'"
    let unknown := token "\"\\\\q\\q\\z\""
    Lexeme.scan true "x = '\\'é' + \"\\\\q\\q\\z\"".toList =
        .ok [⟨.word, "x", 0⟩, ⟨.mark, "=", 2⟩, ⟨.quoted, known.text, 4⟩, ⟨.mark, "+", 11⟩,
          ⟨.quoted, unknown.text, 13⟩] ∧
      text known = .ok "'é" ∧
      text unknown = .error (.atToken .invalidEscape "invalid escape sequence: \\q" unknown) := by
  intro token known unknown
  have hscan : Lexeme.scan true "x = '\\'é' + \"\\\\q\\q\\z\"".toList =
      .ok [⟨.word, "x", 0⟩, ⟨.mark, "=", 2⟩, ⟨.quoted, known.text, 4⟩, ⟨.mark, "+", 11⟩,
        ⟨.quoted, unknown.text, 13⟩] := by cbv
  refine ⟨hscan, ?_, ?_⟩
  · obtain ⟨q, inner, -, -, hinner, -, -, -, hok, -⟩ :=
      quoted_text_reads true _ _ _ known hscan (.tail _ (.tail _ (.head _))) rfl rfl
    have hchars : unquote known.text.toList = ['\\', '\'', 'é'] := by cbv
    obtain rfl := hchars.symm.trans hinner
    exact (hok _).2 (.pair rfl (.plain (by decide) .nil))
  · obtain ⟨q, inner, -, -, hinner, -, -, -, -, herror⟩ :=
      quoted_text_reads true _ _ _ unknown hscan (.tail _ (.tail _ (.tail _ (.tail _ (.head _))))) rfl rfl
    have hchars : unquote unknown.text.toList = ['\\', '\\', 'q', '\\', 'q', '\\', 'z'] := by cbv
    obtain rfl := hchars.symm.trans hinner
    refine (herror _).2 ⟨'q', ?_, rfl⟩
    rw [firstUnknown_known_iff (by decide), firstUnknown_plain_iff (by decide),
      firstUnknown_unknown_iff (by decide)]

end GotoScript.Literal
