import GotoScript.Proofs.Language.Sources
import GotoScript.Proofs.Parsing.Readings
import GotoScript.Proofs.Scanning.Offsets

/-!
# Where compile errors point

A compile error names a token by its line and column, and by a span of bytes in the source text. The two are
counted in different texts: lines in the text with unified line ends, bytes in the text as it was given.

* `parseSource_eq_compile_iff` : the compile errors of a text, by its tokens;
  `CompileError.exists_token` : an error with a position is at a token;
* `parseSource_append_newline_error` : the first error of a text stays when more lines follow it;
* `Token.ReadFrom` : a token and the characters that it was read from; `CompileError.Span.Covers` : a span
  that covers characters which read as a text;
* `span_covers_token_iff` : when the span of an error covers its token.
-/

namespace GotoScript

open Text (byteLength unifyLineEnds loneReturns lastLine)

/-! ## The errors of a text -/

/-- A text has a compile error if its tokens have one, and then the text is attached to it. -/
theorem parseSource_eq_compile_iff {file source : String} {e : CompileError} :
    parseSource file source = .error (.compile e) ↔
      ∃ stream, tokenStream file source = .ok stream ∧
        ∃ e₀, stream.program = .error e₀ ∧ e₀.withSource source = e := by
  unfold parseSource
  cases tokenStream file source with
  | error e' => simp [Except.mapError, bind, Except.bind]
  | ok stream =>
    change TokenStream.programOf stream source = _ ↔ _
    unfold TokenStream.programOf
    cases hprogram : stream.program <;> simp [hprogram, Except.mapError]

/-- An error of the parser that has a position is at one of the tokens. -/
theorem CompileError.exists_token {file : String} {ts : List Token} {e : CompileError} {p : Position}
    (h : Parser.program file ts = .error e) (hp : e.position = some p) :
    ∃ t ∈ ts, t.position = p ∧ ∃ kind message, e = atToken kind message t := by
  -- the error is compared with itself: read again as they are, the tokens fail alike
  have hend : Grammar.AtLineEnd ([] : List Token) := fun t ht => absurd ht (Option.not_mem_none t)
  obtain ⟨e', -, hreturns⟩ := Parser.program_returns (g := id) hend h
  cases hreturns with
  | @token kind message t hkind ht => exact ⟨t, ht, Option.some.inj hp, kind, message, rfl⟩
  | ended => cases hp
  | stopped => cases hp

/-- Where the line and the column of a token lead back to the characters it follows, an error at it begins
there. -/
theorem CompileError.span_atToken {t : Token} {source : String} {before rest : List Char}
    (hline : t.position.line.toNat = 1 + before.count '\n')
    (hcolumn : t.position.column.toNat = 1 + (lastLine before).length)
    (hsource : source.toList = before ++ rest) (hrest : rest ≠ []) (ht : t.text.toList ≠ [])
    (kind : Kind) (message : String) :
    ((atToken kind message t).withSource source).span = some ⟨byteLength before, t.text.length⟩ := by
  have hwidth : max t.text.length 1 = t.text.length := by
    have hpos := List.length_pos_iff.2 ht
    rw [String.length_toList] at hpos
    omega
  change (Text.offsetOf? source.toList t.position.line t.position.column).map _ = _
  rw [hsource, Text.offsetOf?_append hline hcolumn hrest, Option.map_some]
  exact congrArg (fun width => some (Span.mk _ width)) hwidth

/-! ## The tokens of a text -/

theorem file_of_tokenStream {file source : String} {stream : TokenStream}
    (h : tokenStream file source = .ok stream) : stream.file = file := by
  obtain ⟨-, -, ls, -, rfl⟩ := tokenStream_eq_ok_iff.1 h
  rfl

theorem exists_follows_of_tokenStream {file source : String} {stream : TokenStream} {t : Token}
    (h : tokenStream file source = .ok stream) (hlength : source.length < UInt32.size)
    (ht : t ∈ stream.tokens) :
    ∃ before after, unifyLineEnds source.toList = before ++ (t.text.toList ++ after) ∧
      t.Follows file before := by
  obtain ⟨-, -, ls, hscan, rfl⟩ := tokenStream_eq_ok_iff.1 h
  rw [TokenStream.tokens_ofLexemes hscan] at ht
  have hle := Text.length_unifyLineEnds_le source.toList
  rw [String.length_toList] at hle
  exact Token.exists_follows hscan (by omega) ht

/-! ## Errors when more lines follow -/

/-- The span of an error at a token does not depend on what follows the token. -/
theorem CompileError.withSource_append {file : String} {t : Token} {s s' : String} {before rest : List Char}
    (h : t.Follows file before) (hs : s.toList = before ++ (t.text.toList ++ rest))
    (hlength : s.length < UInt32.size - 1) (kind : Kind) (message : String) :
    (atToken kind message t).withSource (s ++ s') = (atToken kind message t).withSource s := by
  have hbefore : before.length < UInt32.size - 1 := by
    rw [← String.length_toList, hs, List.length_append] at hlength
    omega
  obtain ⟨hline, hcolumn⟩ := h.toNat_position hbefore
  have hs' : (s ++ s').toList = before ++ (t.text.toList ++ rest ++ s'.toList) := by
    rw [String.toList_append, hs, List.append_assoc]
  have hspan : ((atToken kind message t).withSource (s ++ s')).span =
      ((atToken kind message t).withSource s).span := by
    rw [span_atToken hline hcolumn hs' (by simp [h.ne_nil]) h.ne_nil,
      span_atToken hline hcolumn hs (by simp [h.ne_nil]) h.ne_nil]
  exact congrArg (fun span => { atToken kind message t with span }) hspan

theorem toList_append_newline (s₁ s₂ : String) :
    (s₁ ++ "\n" ++ s₂).toList = s₁.toList ++ '\n' :: s₂.toList := by
  rw [String.toList_append, String.toList_append, List.append_assoc]
  rfl

/-- The tokens of a text before a line end, when the rest of the text can be scanned too. -/
theorem tokens_append_newline {file s₁ s₂ : String} {stream stream' : TokenStream}
    (hs₁ : '\r' ∉ s₁.toList) (hs₂ : '\r' ∉ s₂.toList) (h : tokenStream file s₁ = .ok stream)
    (h' : tokenStream file (s₁ ++ "\n" ++ s₂) = .ok stream') :
    ∃ n later, n.isNewline ∧ n.Follows file s₁.toList ∧ stream'.tokens = stream.tokens ++ n :: later := by
  have hreturn : '\r' ∉ s₁.toList ++ '\n' :: s₂.toList := by simp [hs₁, hs₂]
  obtain ⟨-, -, ls, hscan, rfl⟩ := tokenStream_eq_ok_iff.1 h
  obtain ⟨-, -, all, hall, rfl⟩ := tokenStream_eq_ok_iff.1 h'
  rw [toList_append_newline, Text.unifyLineEnds_of_notMem hreturn] at hall ⊢
  rw [Text.unifyLineEnds_of_notMem hs₁] at hscan ⊢
  have hjoined := Lexeme.scan_append_newline hscan s₂.toList
  -- the whole text can be scanned, so what follows the line end can
  cases hscan' : Lexeme.scan true s₂.toList with
  | error e =>
    rw [hall, hscan'] at hjoined
    cases hjoined
  | ok ms =>
    rw [hscan'] at hjoined
    let l : Lexeme := ⟨.lineEnd, "\n", byteLength s₁.toList⟩
    have hchars : l.chars = ['\n'] := Lexeme.chars_mk_ofList ..
    have hplaced : Lexeme.Placed true s₁.toList l s₂.toList := by
      refine ⟨rfl, ?_, fun hkind => by cases hkind⟩
      rw [hchars]
      exact .lineEnd rfl
    have hfollows := hplaced.follows file
    rw [hchars, List.singleton_append] at hfollows
    rw [TokenStream.tokens_ofLexemes hall, TokenStream.tokens_ofLexemes hscan,
      Except.ok.inj (hall.symm.trans hjoined), Lexeme.paired_scan_append_lineEnd hscan hscan']
    exact ⟨_, _, rfl, hfollows, rfl⟩

theorem TokenStream.program_returns {s s' : TokenStream} {n : Token} {later : List Token} {e : CompileError}
    (hfile : s'.file = s.file) (htokens : s'.tokens = s.tokens ++ n :: later) (hn : n.isNewline)
    (h : s.program = .error e) :
    ∃ e', s'.program = .error e' ∧ e.Returns id (n :: later) s.tokens e' := by
  have hagain : reread id (n :: later) s.tokens = s'.tokens := by
    rw [htokens]
    exact congrArg (· ++ _) (List.map_id _)
  unfold program at h ⊢
  rw [hfile, ← hagain]
  exact Parser.program_returns (Grammar.atLineEnd_cons hn) h

/-- The first error of a text stays when more lines follow it. Where the text ended too early, the line end
after it is unexpected. -/
theorem parseSource_append_newline_error (file s₁ s₂ : String) (e : CompileError)
    (hs₁ : '\r' ∉ s₁.toList) (hs₂ : '\r' ∉ s₂.toList)
    (hlength : s₁.length + s₂.length < UInt32.size - 2)
    (htokens : ∃ stream, tokenStream file (s₁ ++ "\n" ++ s₂) = .ok stream)
    (h : parseSource file s₁ = .error (.compile e)) :
    ∃ e', parseSource file (s₁ ++ "\n" ++ s₂) = .error (.compile e') ∧
      (e.position.isSome → e' = e) ∧
      (e.position = none ↔ e.kind = .unexpectedEnd) ∧
      (e.kind = .unexpectedEnd →
        e'.kind = .unexpectedToken ∧ e'.span = some ⟨byteLength s₁.toList, 1⟩ ∧
          ∃ p, e'.position = some p ∧ p.file = file ∧ p.line.toNat = 1 + s₁.toList.count '\n' ∧
            p.column.toNat = 1 + (lastLine s₁.toList).length) := by
  obtain ⟨stream, hstream, e₀, hfails, rfl⟩ := parseSource_eq_compile_iff.1 h
  obtain ⟨stream', hstream'⟩ := htokens
  obtain ⟨n, later, hn, hfollows, htokens⟩ := tokens_append_newline hs₁ hs₂ hstream hstream'
  have hfile : stream'.file = stream.file :=
    (file_of_tokenStream hstream').trans (file_of_tokenStream hstream).symm
  obtain ⟨e', hfails', hreturns⟩ := TokenStream.program_returns hfile htokens hn hfails
  refine ⟨_, parseSource_eq_compile_iff.2 ⟨stream', hstream', e', hfails', rfl⟩, ?_⟩
  cases hreturns with
  | @token kind message t hkind ht =>
    obtain ⟨before, after, htext, hfollows⟩ := exists_follows_of_tokenStream hstream (by omega) ht
    rw [Text.unifyLineEnds_of_notMem hs₁] at htext
    have hsame : (CompileError.atToken kind message t).withSource (s₁ ++ "\n" ++ s₂) =
        (CompileError.atToken kind message t).withSource s₁ := by
      rw [String.append_assoc]
      exact CompileError.withSource_append hfollows htext (by omega) kind message
    refine ⟨fun _ => hsame, ?_, fun hend => absurd hend hkind⟩
    exact iff_of_false (Option.some_ne_none _) hkind
  | ended htail => cases htail
  | @stopped _ _ message n _ htail =>
    cases htail
    obtain ⟨hline, hcolumn⟩ := hfollows.toNat_position (by rw [String.length_toList]; omega)
    have hspan := CompileError.span_atToken hline hcolumn (toList_append_newline s₁ s₂)
      (List.cons_ne_nil _ _) hfollows.ne_nil .unexpectedToken message
    rw [show n.text = Token.newline from of_decide_eq_true hn] at hspan
    refine ⟨fun hsome => absurd hsome Bool.false_ne_true, iff_of_true rfl rfl, fun _ => ?_⟩
    exact ⟨rfl, hspan, n.position, rfl, by rw [hfollows.position], hline, hcolumn⟩

/-- A jump whose label is on the next line. -/
theorem parseSource_append_newline_error_goto :
    ∃ e e', parseSource "main" "@a\ngoto" = .error (.compile e) ∧ e.kind = .unexpectedEnd ∧
      parseSource "main" "@a\ngoto\n@a" = .error (.compile e') ∧
      e'.kind = .unexpectedToken ∧ e'.span = some ⟨7, 1⟩ := by
  have herror : parseSource "main" "@a\ngoto" = .error (.compile
      ⟨.unexpectedEnd, "expected '@' but found <END-OF-FILE>", none, some "main", 1, some ⟨7, 0⟩⟩) := by
    cbv
  have htokens : tokenStream "main" "@a\ngoto\n@a" =
      .ok ⟨⟨"main", #["@", "a", "\n", "goto", "\n", "@", "a"], #[1, 1, 1, 2, 2, 3, 3],
        #[1, 2, 3, 1, 5, 1, 2]⟩, 0⟩ := by
    cbv
  obtain ⟨e', he', -, -, hstopped⟩ := parseSource_append_newline_error "main" "@a\ngoto" "@a" _
    (by decide) (by decide) (by decide) ⟨_, htokens⟩ herror
  obtain ⟨hkind, hspan, -⟩ := hstopped rfl
  exact ⟨_, e', herror, rfl, he', hkind, hspan⟩

/-! ## What a span covers -/

/-- The token was read from `stretch`, which stands between `before` and `after`. Its line and column are
counted with unified line ends. -/
structure Token.ReadFrom (t : Token) (before stretch after : List Char) : Prop where
  text : t.text.toList = unifyLineEnds stretch
  apart : unifyLineEnds (before ++ (stretch ++ after)) =
    unifyLineEnds before ++ (unifyLineEnds stretch ++ unifyLineEnds after)
  line : t.position.line.toNat = 1 + (unifyLineEnds before).count '\n'
  column : t.position.column.toNat = 1 + (lastLine (unifyLineEnds before)).length

/-- The span begins after `before`, and what it covers of `rest` reads as `text`. -/
def CompileError.Span.Covers (s : Span) (before rest text : List Char) : Prop :=
  ∃ covered more, rest = covered ++ more ∧ unifyLineEnds covered = text ∧
    s = ⟨byteLength before, byteLength covered⟩

/-- Every token of a text was read from a stretch of it. -/
theorem exists_readFrom_of_tokenStream {file source : String} {stream : TokenStream} {t : Token}
    (h : tokenStream file source = .ok stream) (hlength : source.length < UInt32.size - 1)
    (ht : t ∈ stream.tokens) :
    t.text.toList ≠ [] ∧ (t.text.toList.getLast? = some '\n' → t.isNewline) ∧
      ∃ before stretch after, source.toList = before ++ (stretch ++ after) ∧
        t.ReadFrom before stretch after := by
  obtain ⟨pre, post, htext, hfollows⟩ := exists_follows_of_tokenStream h (by omega) ht
  obtain ⟨before, rest, hsource, rfl, hrest, -⟩ := Text.exists_of_unifyLineEnds_append htext
  obtain ⟨stretch, after, rfl, hstretch, rfl, -⟩ := Text.exists_of_unifyLineEnds_append hrest
  have hbefore : (unifyLineEnds before).length < UInt32.size - 1 := by
    have hle := Text.length_unifyLineEnds_le before
    rw [← String.length_toList, hsource, List.length_append] at hlength
    omega
  obtain ⟨hline, hcolumn⟩ := hfollows.toNat_position hbefore
  refine ⟨hfollows.ne_nil, hfollows.isNewline, before, stretch, after, hsource, hstretch.symm, ?_, hline,
    hcolumn⟩
  rw [← hsource, htext, hstretch]

namespace Token.ReadFrom

variable {t : Token} {before stretch after : List Char}

/-- A span as long as the token's text covers the token if the bytes of the stretch are its characters. A line
end is covered by its first character. -/
theorem covers_iff (h : t.ReadFrom before stretch after)
    (hlast : t.text.toList.getLast? = some '\n' → t.isNewline) :
    CompileError.Span.Covers ⟨byteLength before, t.text.length⟩ before (stretch ++ after) t.text.toList ↔
      t.isNewline ∨ (∀ c ∈ stretch, c.utf8Size = 1) ∧ ¬ ['\r', '\n'] <:+: stretch := by
  rw [← String.length_toList]
  constructor
  · rintro ⟨covered, more, hcovered, htext, hspan⟩
    by_cases hn : t.isNewline
    · exact .inl hn
    · -- what is covered and the stretch begin together and read alike
      have hsame : covered = stretch :=
        Text.eq_of_unifyLineEnds_eq hcovered.symm (htext.trans h.text) (htext ▸ mt hlast hn)
      have hbytes : byteLength covered = (unifyLineEnds covered).length := by
        rw [htext]
        exact (congrArg CompileError.Span.length hspan).symm
      rw [hsame, Text.byteLength_eq_length_unifyLineEnds_iff] at hbytes
      exact .inr hbytes
  · rintro (hn | hbytes)
    · have htext : t.text.toList = ['\n'] := by
        rw [show t.text = newline from of_decide_eq_true hn]
        rfl
      obtain ⟨c, more, rfl, hc⟩ := Text.exists_of_unifyLineEnds_cons (h.text.symm.trans htext)
      refine ⟨[c], more ++ after, rfl, ?_, ?_⟩
      · rw [htext]
        rcases hc with rfl | rfl <;> rfl
      · rw [htext]
        rcases hc with rfl | rfl <;> rfl
    · refine ⟨stretch, after, rfl, h.text.symm, ?_⟩
      rw [h.text, (Text.byteLength_eq_length_unifyLineEnds_iff stretch).2 hbytes]

/-- The span of an error at a token begins with the token, unless a lone carriage return stands before it. -/
theorem span_eq (h : t.ReadFrom before stretch after) (hne : t.text.toList ≠ [])
    (hreturns : loneReturns before = 0) {source : String}
    (hsource : source.toList = before ++ (stretch ++ after)) (kind : CompileError.Kind) (message : String) :
    ((CompileError.atToken kind message t).withSource source).span =
      some ⟨byteLength before, t.text.length⟩ := by
  have hline := h.line
  have hcolumn := h.column
  rw [Text.count_unifyLineEnds, hreturns, Nat.add_zero] at hline
  rw [Text.lastLine_unifyLineEnds hreturns] at hcolumn
  refine CompileError.span_atToken hline hcolumn hsource ?_ hne kind message
  intro hnil
  obtain ⟨rfl, -⟩ := List.append_eq_nil_iff.1 hnil
  exact hne h.text

/-- After a lone carriage return the span begins further on, if there is one. -/
theorem lt_offset (h : t.ReadFrom before stretch after) (hreturns : loneReturns before ≠ 0) {source : String}
    (hsource : source.toList = before ++ (stretch ++ after)) {kind : CompileError.Kind} {message : String}
    {s : CompileError.Span}
    (hs : ((CompileError.atToken kind message t).withSource source).span = some s) :
    byteLength before < s.offset := by
  obtain ⟨offset, hoffset, rfl⟩ := Option.map_eq_some_iff.1 hs
  have hline := h.line
  rw [Text.count_unifyLineEnds] at hline
  rw [hsource] at hoffset
  exact Text.lt_of_offsetOf? (by omega) hoffset

end Token.ReadFrom

/-- An error with a position is at a token. Its span covers the token if no carriage return before the token
stands alone, and the token is a line end or was read from characters of one byte each, none of them
dropped. -/
theorem span_covers_token_iff (file source : String) (e : CompileError) (p : Position)
    (hlength : source.length < UInt32.size - 1) (h : parseSource file source = .error (.compile e))
    (hp : e.position = some p) :
    ∃ stream t before stretch after, tokenStream file source = .ok stream ∧ t ∈ stream.tokens ∧
      t.position = p ∧ source.toList = before ++ (stretch ++ after) ∧ t.ReadFrom before stretch after ∧
      (loneReturns before = 0 → e.span = some ⟨byteLength before, t.text.length⟩) ∧
      ((∃ s, e.span = some s ∧ s.Covers before (stretch ++ after) t.text.toList) ↔
        loneReturns before = 0 ∧
          (t.isNewline ∨ (∀ c ∈ stretch, c.utf8Size = 1) ∧ ¬ ['\r', '\n'] <:+: stretch)) := by
  obtain ⟨stream, hstream, e₀, hfails, rfl⟩ := parseSource_eq_compile_iff.1 h
  obtain ⟨t, ht, hposition, kind, message, rfl⟩ := CompileError.exists_token hfails hp
  obtain ⟨hne, hlast, before, stretch, after, hsource, hread⟩ :=
    exists_readFrom_of_tokenStream hstream hlength ht
  have hspan := fun hreturns => hread.span_eq hne hreturns hsource kind message
  refine ⟨stream, t, before, stretch, after, hstream, ht, hposition, hsource, hread, hspan, ?_⟩
  rw [← hread.covers_iff hlast]
  constructor
  · rintro ⟨s, hs, hcovers⟩
    -- behind a lone return the span begins too late to cover the token
    have hreturns : loneReturns before = 0 := by
      by_contra hreturns
      obtain ⟨covered, more, -, -, rfl⟩ := hcovers
      exact absurd (hread.lt_offset hreturns hsource hs) (Nat.lt_irrefl _)
    rw [hspan hreturns, Option.some.injEq] at hs
    exact ⟨hreturns, hs ▸ hcovers⟩
  · rintro ⟨hreturns, hcovers⟩
    exact ⟨_, hspan hreturns, hcovers⟩

/-- A comment with an accented letter, a line end of two characters, and a parenthesis that nothing opens. -/
theorem span_covers_token_after_comment :
    ∃ e, parseSource "main" "/*é*/\r\n)" = .error (.compile e) ∧ e.position = some ⟨"main", 2, 1⟩ ∧
      e.span = some ⟨8, 1⟩ ∧
      ∃ (t : Token) (before stretch after : List Char), t.position = ⟨"main", 2, 1⟩ ∧
        "/*é*/\r\n)".toList = before ++ (stretch ++ after) ∧ t.ReadFrom before stretch after ∧
        ((∃ s, e.span = some s ∧ s.Covers before (stretch ++ after) t.text.toList) ↔
          loneReturns before = 0 ∧
            (t.isNewline ∨ (∀ c ∈ stretch, c.utf8Size = 1) ∧ ¬ ['\r', '\n'] <:+: stretch)) := by
  have herror : parseSource "main" "/*é*/\r\n)" = .error (.compile
      ⟨.unexpectedToken, "unexpected token: ')'", some ⟨"main", 2, 1⟩, some "main", 1, some ⟨8, 1⟩⟩) := by
    cbv
  obtain ⟨-, t, before, stretch, after, -, -, hposition, hsource, hread, -, hiff⟩ :=
    span_covers_token_iff "main" "/*é*/\r\n)" _ _ (by decide) herror rfl
  exact ⟨_, herror, rfl, rfl, t, before, stretch, after, hposition, hsource, hread, hiff⟩

/-- The span of a letter of two bytes ends inside it, and after a lone carriage return there is none. -/
theorem span_misses_token :
    (∃ e, parseSource "main" "é" = .error (.compile e) ∧ e.position = some ⟨"main", 1, 1⟩ ∧
      e.span = some ⟨0, 1⟩ ∧ ∀ covered more, "é".toList = covered ++ more → byteLength covered ≠ 1) ∧
    ∃ e, parseSource "main" "x\r)" = .error (.compile e) ∧ e.position = some ⟨"main", 2, 1⟩ ∧
      e.span = none := by
  have hletter : parseSource "main" "é" = .error (.compile
      ⟨.unexpectedToken, "unexpected token: 'é'", some ⟨"main", 1, 1⟩, some "main", 1, some ⟨0, 1⟩⟩) := by
    cbv
  have hreturn : parseSource "main" "x\r)" = .error (.compile
      ⟨.unexpectedToken, "unexpected token: ')'", some ⟨"main", 2, 1⟩, some "main", 1, none⟩) := by
    cbv
  refine ⟨⟨_, hletter, rfl, rfl, fun covered more h => ?_⟩, _, hreturn, rfl, rfl⟩
  rw [show "é".toList = ['é'] from String.toList_ofList] at h
  rcases List.cons_eq_append_iff.1 h with ⟨rfl, -⟩ | ⟨covered, rfl, hnil⟩
  · decide
  · obtain ⟨rfl, -⟩ := List.append_eq_nil_iff.1 hnil.symm
    decide

end GotoScript
