import GotoScript.Proofs.Language.Errors
import GotoScript.Proofs.Scanning.Spacing

/-!
# Programs with blanks put in

The parser reads the texts of tokens and records where some of them stand. So it reads the same tokens at other places
as the same program, or with the same error.

* `CompileError.SameAt` : an error and where it stands elsewhere; `parseSource_moved` : texts with the same tokens at
  other places;
* `tokens_insert_blanks` : the tokens of a text with blanks put in;
* `parseSource_insert_blanks` : spaces and tabs behind a token move what is behind them on the line, and change nothing
  else.
-/

namespace GotoScript

/-! ## Tokens at other places -/

/-- The same error at another place. -/
structure CompileError.SameAt (g : Position → Position) (e e' : CompileError) : Prop where
  kind : e'.kind = e.kind
  message : e'.message = e.message
  position : e'.position = e.position.map g

theorem CompileError.Returns.sameAt {g : Position → Position} {ts : List Token} {e e' : CompileError}
    (h : e.Returns g [] ts e') : e.SameAt g e' := by
  cases h with
  | token => exact ⟨rfl, rfl, rfl⟩
  | ended => exact ⟨rfl, rfl, rfl⟩
  | stopped htail => cases htail

namespace TokenStream

theorem program_error_moved {s s' : TokenStream} {g : Position → Position} {e : CompileError}
    (hfile : s'.file = s.file) (htokens : s'.tokens = s.tokens.map (Token.moved g)) (h : s.program = .error e) :
    ∃ e', s'.program = .error e' ∧ e.SameAt g e' := by
  have hend : Grammar.AtLineEnd ([] : List Token) := fun t ht => absurd ht (Option.not_mem_none t)
  obtain ⟨e', hfails, hreturns⟩ := Parser.program_returns (g := g) hend h
  rw [reread, List.append_nil] at hfails
  refine ⟨e', ?_, hreturns.sameAt⟩
  rw [program, hfile, htokens]
  exact hfails

end TokenStream

/-- Texts with the same tokens at other places are the same program there, or have the same error there. -/
theorem parseSource_moved {file s₁ s₂ : String} {stream₁ stream₂ : TokenStream} {g : Position → Position}
    (h₁ : tokenStream file s₁ = .ok stream₁) (h₂ : tokenStream file s₂ = .ok stream₂)
    (htokens : stream₂.tokens = stream₁.tokens.map (Token.moved g)) :
    (∃ p, parseSource file s₁ = .ok p ∧ parseSource file s₂ = .ok (p.moved g)) ∨
      ∃ e e', parseSource file s₁ = .error (.compile e) ∧ parseSource file s₂ = .error (.compile e') ∧
        e.SameAt g e' := by
  cases hprogram : stream₁.program with
  | ok p =>
    have hderives := Grammar.derives_of_parses hprogram
    have hmoved := hderives.moved g
    rw [← htokens] at hmoved
    refine .inl ⟨p, ?_, ?_⟩
    · exact parseSource_eq_ok_iff_program.2 ⟨stream₁, h₁, TokenStream.programOf_eq_ok_iff.2 hderives⟩
    · exact parseSource_eq_ok_iff_program.2 ⟨stream₂, h₂, TokenStream.programOf_eq_ok_iff.2 hmoved⟩
  | error e =>
    have hfile : stream₂.file = stream₁.file := (file_of_tokenStream h₂).trans (file_of_tokenStream h₁).symm
    obtain ⟨e', hfails, hsame⟩ := TokenStream.program_error_moved hfile htokens hprogram
    refine .inr ⟨e.withSource s₁, e'.withSource s₂, ?_, ?_, hsame.kind, hsame.message, hsame.position⟩
    · exact parseSource_eq_compile_iff.2 ⟨stream₁, h₁, e, hprogram, rfl⟩
    · exact parseSource_eq_compile_iff.2 ⟨stream₂, h₂, e', hfails, rfl⟩

/-! ## Blanks in a source text -/

/-- A column of a text can grow by as many characters as the text may still take. -/
theorem column_lt_of_tokenStream {file source : String} {s : TokenStream} {t : Token} {n : Nat}
    (h : tokenStream file source = .ok s) (hlength : source.length + n < UInt32.size - 1) (ht : t ∈ s.tokens) :
    t.position.column.toNat + n < UInt32.size := by
  obtain ⟨before, rest, htext, hfollows⟩ := exists_follows_of_tokenStream h (by omega) ht
  have hshort : before.length ≤ source.length := by
    have hle := Text.length_unifyLineEnds_le source.toList
    rw [htext, List.length_append, String.length_toList] at hle
    omega
  have hlast := (Text.lastLine_suffix before).length_le
  obtain ⟨-, hcolumn⟩ := hfollows.toNat_position (by omega)
  omega

section blanks

variable {file before after blanks : String} {stream : TokenStream} {lexemes : List Lexeme} {k : Nat} {l : Lexeme}

theorem tokens_insert_blanks (hreturn : '\r' ∉ (before ++ after).toList)
    (hstream : tokenStream file (before ++ after) = .ok stream)
    (hscan : Lexeme.scan true (before ++ after).toList = .ok lexemes) (hl : lexemes[k]? = some l)
    (hstop : l.stop = Text.byteLength before.toList)
    (hwhole : ∀ t, Token.StartsAt stream.tokens k t → t.width ≠ 2)
    (hblanks : ∀ c ∈ blanks.toList, c = ' ' ∨ c = '\t') (hne : blanks ≠ "")
    (hlength : (before ++ blanks ++ after).length < UInt32.size - 1) :
    ∃ stream', tokenStream file (before ++ blanks ++ after) = .ok stream' ∧
      stream'.tokens =
        stream.tokens.map (Token.moved (Position.right (Text.coordinates before.toList) blanks.length)) := by
  have hsource : (before ++ after).toList = before.toList ++ after.toList := String.toList_append
  have hsource' : (before ++ blanks ++ after).toList = before.toList ++ (blanks.toList ++ after.toList) := by
    rw [String.toList_append, String.toList_append, List.append_assoc]
  have hreturn' : '\r' ∉ (before ++ blanks ++ after).toList := by
    have hnone : '\r' ∉ blanks.toList := by
      intro hmem
      obtain hc | hc := hblanks _ hmem <;> cases hc
    rw [hsource] at hreturn
    rw [hsource']
    simp only [List.mem_append] at hreturn ⊢
    tauto
  obtain ⟨hfile, -, ls, hls, rfl⟩ := tokenStream_eq_ok_iff.1 hstream
  rw [Text.unifyLineEnds_of_notMem hreturn] at hls hwhole ⊢
  obtain rfl := Except.ok.inj (hls.symm.trans hscan)
  rw [TokenStream.tokens_ofLexemes hls] at hwhole ⊢
  rw [hsource] at hls hwhole ⊢
  rw [← String.length_toList, hsource'] at hlength
  have hne' : blanks.toList ≠ [] := fun hnil => hne (String.toList_eq_nil_iff.1 hnil)
  obtain ⟨ls', hscan', htokens⟩ := Lexeme.paired_scan_insert hls hl hstop hwhole hblanks hne' hlength
  have hsome : before ++ blanks ++ after ≠ "" := by
    intro hempty
    rw [hempty] at hsource'
    simp [hne] at hsource'
  refine ⟨⟨.ofLexemes file (before ++ blanks ++ after).toList ls', 0⟩, ?_, ?_⟩
  · rw [tokenStream_eq_ok_iff, Text.unifyLineEnds_of_notMem hreturn']
    exact ⟨hfile, hsome, ls', hsource' ▸ hscan', rfl⟩
  · rw [hsource', TokenStream.tokens_ofLexemes hscan', htokens, String.length_toList]

end blanks

/-- Spaces and tabs behind a lexeme of a text, unless it is the first mark of an operator, leave the texts of the
tokens as they are. The text is the same program or has the same error, up to columns: those behind the blanks on the
same line grow by the number of the blanks. -/
theorem parseSource_insert_blanks (file before after blanks : String) (stream : TokenStream) (lexemes : List Lexeme)
    (k : Nat) (l : Lexeme) (hreturn : '\r' ∉ (before ++ after).toList)
    (hstream : tokenStream file (before ++ after) = .ok stream)
    (hscan : Lexeme.scan true (before ++ after).toList = .ok lexemes) (hl : lexemes[k]? = some l)
    (hstop : l.stop = Text.byteLength before.toList)
    (hwhole : ∀ t, Token.StartsAt stream.tokens k t → t.width ≠ 2)
    (hblanks : ∀ c ∈ blanks.toList, c = ' ' ∨ c = '\t') (hne : blanks ≠ "")
    (hlength : (before ++ blanks ++ after).length < UInt32.size - 1) :
    let start := Text.coordinates before.toList
    let g := Position.right start blanks.length
    (∃ stream', tokenStream file (before ++ blanks ++ after) = .ok stream' ∧
        stream'.tokens.map (·.text) = stream.tokens.map (·.text) ∧
        stream'.tokens = stream.tokens.map (Token.moved g)) ∧
      ((∃ p, parseSource file (before ++ after) = .ok p ∧
          parseSource file (before ++ blanks ++ after) = .ok (p.moved g)) ∨
        ∃ e e', parseSource file (before ++ after) = .error (.compile e) ∧
          parseSource file (before ++ blanks ++ after) = .error (.compile e') ∧ e.SameAt g e') ∧
      ∀ t ∈ stream.tokens,
        (g t.position).file = t.position.file ∧ (g t.position).line = t.position.line ∧
        (g t.position).column.toNat = t.position.column.toNat +
          if t.position.line.toNat = start.1 ∧ start.2 ≤ t.position.column.toNat then blanks.length else 0 := by
  intro start g
  obtain ⟨stream', hstream', htokens⟩ :=
    tokens_insert_blanks hreturn hstream hscan hl hstop hwhole hblanks hne hlength
  have htexts : stream'.tokens.map (·.text) = stream.tokens.map (·.text) := by
    rw [htokens, List.map_map]
    rfl
  have hgrown : (before ++ after).length + blanks.length < UInt32.size - 1 := by
    simp only [String.length_append] at hlength ⊢
    omega
  refine ⟨⟨stream', hstream', htexts, htokens⟩, parseSource_moved hstream hstream' htokens, ?_⟩
  intro t ht
  refine ⟨Position.file_right .., Position.line_right .., ?_⟩
  exact Position.toNat_column_right (column_lt_of_tokenStream hstream hgrown ht)

/-- A space and a tab before an operator, which goes two columns to the right. The next line stays as it is. -/
theorem parseSource_insert_blanks_operator :
    let place (line column : UInt32) : Position := ⟨"main", line, column⟩
    let program (column : UInt32) : Program :=
      ⟨[⟨.print (.chain [.var "x", .var "y"] [⟨"<=", place 1 column, 2⟩]), place 1 1⟩, ⟨.label "a", place 2 1⟩]⟩
    parseSource "main" "print x<=y\n@a" = .ok (program 8) ∧
      parseSource "main" "print x \t<=y\n@a" = .ok (program 10) := by
  intro place program
  have hparse : parseSource "main" "print x<=y\n@a" = .ok (program 8) := by cbv
  let stream : TokenStream :=
    ⟨⟨"main", #["print", "x", "<", "=", "y", "\n", "@", "a"], #[1, 1, 1, 1, 1, 1, 2, 2],
      #[1, 7, 8, 9, 10, 11, 1, 2]⟩, 0⟩
  have hstream : tokenStream "main" "print x<=y\n@a" = .ok stream := by cbv
  have hscan : Lexeme.scan true "print x<=y\n@a".toList =
      .ok [⟨.word, "print", 0⟩, ⟨.word, "x", 6⟩, ⟨.mark, "<", 7⟩, ⟨.mark, "=", 8⟩, ⟨.word, "y", 9⟩,
        ⟨.lineEnd, "\n", 10⟩, ⟨.mark, "@", 11⟩, ⟨.word, "a", 12⟩] := by
    cbv
  have hwhole : ∀ t, Token.StartsAt stream.tokens 1 t → t.width ≠ 2 := by
    have htokens : stream.tokens =
        [⟨"print", place 1 1, 1⟩, ⟨"x", place 1 7, 1⟩, ⟨"<=", place 1 8, 2⟩, ⟨"y", place 1 10, 1⟩,
          ⟨"\n", place 1 11, 1⟩, ⟨"@", place 2 1, 1⟩, ⟨"a", place 2 2, 1⟩] := by
      cbv
    intro t ht
    rw [htokens] at ht
    obtain ⟨hzero, -⟩ | ⟨j, hj, ht⟩ := Token.startsAt_cons_iff.1 ht
    · cases hzero
    · obtain rfl : 0 = j := Nat.add_left_cancel hj
      obtain ⟨-, rfl⟩ | ⟨i, hi, -⟩ := Token.startsAt_cons_iff.1 ht
      · decide
      · change 0 = 1 + i at hi
        omega
  have hblanks : ∀ c ∈ " \t".toList, c = ' ' ∨ c = '\t' := by simp
  obtain ⟨-, ⟨p, hp, hmoved⟩ | ⟨e, -, he, -⟩, -⟩ :=
    parseSource_insert_blanks "main" "print x" "<=y\n@a" " \t" stream _ 1 _ (by decide) hstream hscan rfl rfl hwhole
      hblanks (by decide) (by decide)
  · obtain rfl := Except.ok.inj (hparse.symm.trans hp)
    exact ⟨hparse, hmoved⟩
  · cases hparse.symm.trans he

end GotoScript
