import GotoScript.Proofs.Language.Sources
import GotoScript.Proofs.Scanning.LineEnds

/-!
# Text literals

Every text can be written as a literal, in either quote. The scanner finds the end of a literal without
reading its escapes, and the parser reads the escapes without looking for an end; on what is written here
the two agree.

* `Literal.spell` : a text as a literal;
* `Literal.unescape_escape`, `Lexeme.quoteBody_escape` : what stands between the quotes, as the parser and as
  the scanner read it;
* `Lexeme.scan_append_quoted` : a quoted text ends at its quote, whatever stands around it;
* `text_literal_round_trip` : the text comes back.
-/

namespace GotoScript

open Text (byteLength unifyLineEnds)

namespace Literal

/-! ## Spelling -/

/-- How a character is written between quotes. -/
def escape (c : Char) : List Char :=
  if c = '\r' then ['\\', 'r']
  else if c = '\n' then ['\\', 'n']
  else if c = '\t' then ['\\', 't']
  else if c = '"' || c = '\'' || c = '\\' then ['\\', c]
  else [c]

/-- A text as a literal in the quotes `q`. -/
def spell (q : Char) (s : String) : String :=
  String.ofList (q :: (s.toList.flatMap escape ++ [q]))

/-- A character is written as it is, or as an escape that stands for it. Neither way writes a line end. -/
inductive Written (c : Char) : List Char → Prop where
  | plain (hescape : c ≠ '\\') (hquote : Lexeme.isQuote c = false) (hreturn : c ≠ '\r') (hfeed : c ≠ '\n') :
    Written c [c]
  | escaped {d : Char} (h : escaped? d = some c) (hreturn : d ≠ '\r') (hfeed : d ≠ '\n') :
    Written c ['\\', d]

theorem written_escape (c : Char) : Written c (escape c) := by
  unfold escape
  split
  · next hc =>
    subst hc
    exact .escaped rfl (by decide) (by decide)
  next hreturn =>
  split
  · next hc =>
    subst hc
    exact .escaped rfl (by decide) (by decide)
  next hfeed =>
  split
  · next hc =>
    subst hc
    exact .escaped rfl (by decide) (by decide)
  split
  · next hc =>
    refine .escaped ?_ hreturn hfeed
    simp only [Bool.or_eq_true, decide_eq_true_eq] at hc
    rcases hc with (rfl | rfl) | rfl <;> rfl
  · next hc =>
    simp only [Bool.or_eq_true, decide_eq_true_eq, not_or] at hc
    exact .plain hc.2 (by simp [Lexeme.isQuote, hc.1]) hreturn hfeed

theorem unescape_of_ne {c : Char} (h : c ≠ '\\') (rest : List Char) :
    unescape (c :: rest) = (unescape rest).map (c :: ·) := by
  rw [unescape]
  · rintro rfl
    exact absurd rfl h
  · rintro d ds rfl
    exact absurd rfl h

/-- Reading undoes writing. -/
theorem unescape_escape (cs : List Char) : unescape (cs.flatMap escape) = .ok cs := by
  induction cs with
  | nil => rfl
  | cons c cs ih =>
    rw [List.flatMap_cons]
    generalize escape c = written, written_escape c = hc
    cases hc with
    | plain hescape _ _ _ =>
      rw [List.singleton_append, unescape_of_ne hescape, ih]
      rfl
    | escaped h _ _ =>
      rw [List.cons_append, List.singleton_append, unescape, h, ih]
      rfl

/-- No closing quote stands between the quotes. -/
theorem quoteBody_escape {q : Char} (hq : Lexeme.isQuote q) (cs : List Char) :
    Lexeme.QuoteBody q (cs.flatMap escape) := by
  induction cs with
  | nil => exact .nil
  | cons c cs ih =>
    rw [List.flatMap_cons]
    generalize escape c = written, written_escape c = hc
    cases hc with
    | plain hescape hquote _ _ =>
      -- quotes of both kinds are escaped, so this is not the closing one
      refine .plain hescape ?_ ih
      rintro rfl
      exact absurd (hq.symm.trans hquote) (by decide)
    | escaped _ _ _ => exact .escape ih

/-- A literal stands on one line. -/
theorem no_line_end_escape {cs : List Char} {d : Char} (h : d ∈ cs.flatMap escape) : d ≠ '\r' ∧ d ≠ '\n' := by
  obtain ⟨c, -, hd⟩ := List.mem_flatMap.1 h
  generalize escape c = written, written_escape c = hc at hd
  cases hc with
  | plain _ _ hreturn hfeed =>
    obtain rfl := List.mem_singleton.1 hd
    exact ⟨hreturn, hfeed⟩
  | escaped _ hreturn hfeed =>
    rcases List.mem_cons.1 hd with rfl | hd
    · decide
    · obtain rfl := List.mem_singleton.1 hd
      exact ⟨hreturn, hfeed⟩

section spell

variable {q : Char} {s : String}

theorem toList_spell (q : Char) (s : String) :
    (spell q s).toList = q :: (s.toList.flatMap escape ++ [q]) :=
  String.toList_ofList

theorem quote_cases (hq : Lexeme.isQuote q) : q = '"' ∨ q = '\'' := by
  simpa [Lexeme.isQuote] using hq

/-- The parser reads a literal as the text it was written for. -/
theorem text_of_spell (hq : Lexeme.isQuote q) {t : Token} (ht : t.text = spell q s) : text t = .ok s := by
  have hsize : q.utf8Size = 1 := by rcases quote_cases hq with rfl | rfl <;> rfl
  have hunquote : unquote t.text.toList = s.toList.flatMap escape := by
    rw [ht, toList_spell]
    unfold unquote
    simp [hsize]
  unfold text
  rw [hunquote, unescape_escape]
  exact congrArg Except.ok String.ofList_toList

theorem isQuoted_of_spell (hq : Lexeme.isQuote q) {t : Token} (ht : t.text = spell q s) :
    Grammar.IsQuoted t := by
  unfold Grammar.IsQuoted Token.firstChar?
  rw [ht, toList_spell]
  rcases quote_cases hq with rfl | rfl
  · exact .inl rfl
  · exact .inr rfl

theorem entity_of_spell (hq : Lexeme.isQuote q) {t : Token} (ht : t.text = spell q s) :
    Grammar.Entity [t] (.text s) :=
  .text (isQuoted_of_spell hq ht) (text_of_spell hq ht)

/-- The scanner reads a literal as one quoted text, whatever follows it. -/
theorem form_spell (hq : Lexeme.isQuote q) (keep : Bool) (rest : List Char) :
    Lexeme.Form keep (some .quoted) (spell q s).toList rest := by
  rw [toList_spell]
  exact .quoted hq (quoteBody_escape hq _)

theorem notMem_spell (hq : Lexeme.isQuote q) : '\r' ∉ (spell q s).toList := by
  rw [toList_spell, List.mem_cons, List.mem_append, List.mem_singleton]
  rintro (rfl | hmem | rfl)
  · exact absurd hq (by decide)
  · exact (no_line_end_escape hmem).1 rfl
  · exact absurd hq (by decide)

/-- Unifying line ends keeps a literal as it is, wherever it stands. -/
theorem unifyLineEnds_spell (hq : Lexeme.isQuote q) (before after : List Char) :
    unifyLineEnds (before ++ ((spell q s).toList ++ after)) =
      unifyLineEnds before ++ ((spell q s).toList ++ unifyLineEnds after) := by
  have hlit : ¬ Text.Cuts (spell q s).toList after := fun hcuts =>
    notMem_spell hq (List.mem_of_getLast? hcuts.1)
  have hbefore : ¬ Text.Cuts before ((spell q s).toList ++ after) := by
    rintro ⟨-, hhead⟩
    rw [toList_spell] at hhead
    obtain rfl : q = '\n' := Option.some.inj hhead
    exact absurd hq (by decide)
  rw [Text.unifyLineEnds_append hbefore, Text.unifyLineEnds_append hlit,
    Text.unifyLineEnds_of_notMem (notMem_spell hq)]

end spell

end Literal

/-! ## Between other items -/

/-- A quoted text ends at its closing quote, whatever stands around it. -/
theorem Lexeme.scan_append_quoted {keep : Bool} {before quoted : List Char} {ls : List Lexeme}
    (h : scan keep before = .ok ls) (hopen : ¬ OpenComment keep before)
    (hquoted : ∀ rest, Form keep (some .quoted) quoted rest) (after : List Char) :
    scan keep (before ++ (quoted ++ after)) =
      (scanFrom keep (byteLength before + byteLength quoted) after).map
        (ls ++ ⟨.quoted, String.ofList quoted, byteLength before⟩ :: ·) := by
  -- a quote is no blank, no word character, and makes no comment of a slash before it
  have hbreaks : Breaks keep (quoted ++ after) := by
    cases hquoted after with
    | @quoted q inner _ hq _ =>
      rintro c ⟨⟩
      rcases Literal.quote_cases hq with rfl | rfl <;> cases keep <;> decide
  unfold scan at h ⊢
  rw [scanFrom_append_text h hbreaks fun hcomment => absurd hcomment hopen, Nat.zero_add,
    scanFrom_append (hquoted after)]
  cases scanFrom keep (byteLength before + byteLength quoted) after <;> rfl

/-- A literal's token joins with no other. -/
theorem Token.paired_append_spell {q : Char} {s : String} (hq : Lexeme.isQuote q) {t : Token}
    (ht : t.text = Literal.spell q s) (us vs : List Token) :
    paired (us ++ t :: vs) = paired us ++ t :: paired vs := by
  have hno : ∀ text ∈ TokenStream.joinedOperators, q ∉ text.toList := by
    rcases Literal.quote_cases hq with rfl | rfl <;> decide
  have hmem : q ∈ t.text.toList := by
    rw [ht, Literal.toList_spell]
    exact .head _
  exact paired_append (fun _ => not_joins_of_mem hno (.inr hmem)) (fun _ => not_joins_of_mem hno (.inl hmem))
    us vs

/-! ## Alone -/

theorem Lexeme.scan_spell {q : Char} {s : String} (hq : isQuote q) (keep : Bool) :
    scan keep (unifyLineEnds (Literal.spell q s).toList) = .ok [⟨.quoted, Literal.spell q s, 0⟩] := by
  have hform : Form keep (some .quoted) (Literal.spell q s).toList [] := Literal.form_spell hq keep []
  unfold scan
  rw [Text.unifyLineEnds_of_notMem (Literal.notMem_spell hq), ← List.append_nil (Literal.spell q s).toList,
    scanFrom_append hform, scanFrom]
  exact congrArg (fun text => Except.ok [Lexeme.mk .quoted text 0]) String.ofList_toList

/-- A literal alone is a statement that evaluates its text. -/
theorem Grammar.derives_spell {q : Char} {s : String} (hq : Lexeme.isQuote q) {t : Token}
    (ht : t.text = Literal.spell q s) : Derives [t] ⟨[⟨.evaluate (.text s), t.position⟩]⟩ := by
  have hentity : Entity [t] (.text s) := Literal.entity_of_spell hq ht
  have hsuffixed : Suffixed [t] (.text s) := .entity hentity (fun _ => noneAhead_nil _) .nil
  have hexpr : Expression [t] (.text s) :=
    .single (.single (.single (.single (.single (.single (.unary (.suffixed hsuffixed)))))))
  have hstart : NoneAhead starters [t] := by
    rintro u ⟨⟩
    exact Parser.text_notMem_of_head _ (Parser.isQuoted_head (Literal.isQuoted_of_spell hq ht)) (by decide)
  have hline : Lines [t] [⟨.evaluate (.text s), t.position⟩] :=
    .last (.mk (.evaluate hstart hexpr)) (fun t ht => absurd ht List.not_mem_nil)
  exact .lines (fun t ht => absurd ht List.not_mem_nil) hline

/-- A text that is written as a literal comes back. The literal is the only token of its source, and the
program evaluates the text. After any items and before any others, the literal ends at its closing quote, and
its token stands for the text. -/
theorem text_literal_round_trip (file s : String) (q : Char) (keep : Bool) (hfile : file ≠ "")
    (hq : Lexeme.isQuote q) :
    let lit := Literal.spell q s
    TokenizeRequest.tokenize ⟨some file, some lit, keep⟩ = .ok ⟨file, #[lit], #[1], #[1]⟩ ∧
      parseSource file lit = .ok ⟨[⟨.evaluate (.text s), ⟨file, 1, 1⟩⟩]⟩ ∧
      (∀ (before after : String) (ls : List Lexeme),
        let offset := byteLength (unifyLineEnds before.toList)
        Lexeme.scan keep (unifyLineEnds before.toList) = .ok ls →
        ¬ Lexeme.OpenComment keep (unifyLineEnds before.toList) →
          Lexeme.scan keep (unifyLineEnds (before ++ lit ++ after).toList) =
            (Lexeme.scanFrom keep (offset + byteLength lit.toList) (unifyLineEnds after.toList)).map
              (ls ++ ⟨.quoted, lit, offset⟩ :: ·)) ∧
      ∀ t : Token, t.text = lit →
        (∀ us vs, Token.paired (us ++ t :: vs) = Token.paired us ++ t :: Token.paired vs) ∧
        ∀ rest, (Parser.entity file (t :: rest)).Gives (.text s) rest := by
  intro lit
  have hne : lit ≠ "" := by
    intro hempty
    have htoList := congrArg String.toList hempty
    rw [Literal.toList_spell] at htoList
    exact absurd htoList (List.cons_ne_nil _ _)
  have hscan (keep : Bool) := Lexeme.scan_spell (s := s) hq keep
  have htoken : [Lexeme.mk .quoted lit 0].map (Lexeme.token file (unifyLineEnds lit.toList)) =
      [⟨lit, ⟨file, 1, 1⟩, 1⟩] := by
    have hplace : Text.place (unifyLineEnds lit.toList) 0 = (1, 1) := Text.place_append [] _
    exact congrArg (fun place => [Token.mk lit ⟨file, place.1, place.2⟩ 1]) hplace
  refine ⟨?_, ?_, ?_, fun t ht => ⟨Token.paired_append_spell hq ht, fun rest => ?_⟩⟩
  · refine TokenizeRequest.tokenize_eq_ok_iff.2 ⟨hfile, hne, _, hscan keep, ?_⟩
    rw [Lexeme.ofLexemes_eq (hscan keep), htoken]
    rfl
  · refine parseSource_eq_ok_iff.2 ⟨hfile, hne, _, hscan true, ?_⟩
    rw [htoken]
    exact Grammar.derives_spell hq rfl
  · intro before after ls offset hbefore hopen
    rw [String.toList_append, String.toList_append, List.append_assoc, Literal.unifyLineEnds_spell hq,
      Lexeme.scan_append_quoted hbefore hopen (Literal.form_spell hq keep), String.ofList_toList]
  · refine Parser.entity_gives_of_entity (Literal.entity_of_spell hq ht) ?_
    rintro ⟨u, hu, hdigits⟩
    cases hu
    exact absurd (Literal.isQuoted_of_spell hq ht) (Parser.not_isQuoted_of_isDigits hdigits)

/-- Both quotes, a backslash and a line feed, between an operator and another operand. -/
theorem text_literal_round_trip_escapes :
    let lit := "'\\\\\\'\\\"\\n'"
    parseSource "main" lit = .ok ⟨[⟨.evaluate (.text "\\'\"\n"), ⟨"main", 1, 1⟩⟩]⟩ ∧
      Lexeme.scan true (unifyLineEnds ("x =\r" ++ lit ++ "+y").toList) =
        .ok [⟨.word, "x", 0⟩, ⟨.mark, "=", 2⟩, ⟨.lineEnd, "\n", 3⟩, ⟨.quoted, lit, 4⟩, ⟨.mark, "+", 14⟩,
          ⟨.word, "y", 15⟩] := by
  intro lit
  have hlit : Literal.spell '\'' "\\'\"\n" = lit := by decide
  obtain ⟨-, hparse, hscan, -⟩ :=
    text_literal_round_trip "main" "\\'\"\n" '\'' true (by decide) (by decide)
  have hbefore : Lexeme.scan true (unifyLineEnds "x =\r".toList) =
      .ok [⟨.word, "x", 0⟩, ⟨.mark, "=", 2⟩, ⟨.lineEnd, "\n", 3⟩] := by cbv
  have hopen : ¬ Lexeme.OpenComment true (unifyLineEnds "x =\r".toList) := by
    rintro ⟨pre, body, htext, -⟩
    have hslash : '/' ∈ unifyLineEnds "x =\r".toList := by
      rw [htext]
      simp
    exact absurd hslash (by decide)
  have hafter : Lexeme.scanFrom true 14 (unifyLineEnds "+y".toList) =
      .ok [⟨.mark, "+", 14⟩, ⟨.word, "y", 15⟩] := by cbv
  rw [hlit] at hparse hscan
  have hjoined := hscan "x =\r" "+y" _ hbefore hopen
  rw [show byteLength (unifyLineEnds "x =\r".toList) = 4 by decide, show byteLength lit.toList = 10 by decide,
    hafter] at hjoined
  exact ⟨hparse, hjoined⟩

end GotoScript
