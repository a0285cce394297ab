import GotoScript.Language.Basic
import GotoScript.Proofs.Parsing.Positions
import GotoScript.Proofs.Scanning.Joining

/-!
# Parsing source texts

* `tokenStream_eq_ok_iff` : which texts have tokens; `parseSource_eq_ok_iff` : which are programs, by their
  lexemes and the grammar;
* `parseSource_append_newline` : two programs with a line end between them are one program, in which the
  second stands further down.
-/

namespace GotoScript

theorem TokenStream.programOf_eq_ok_iff {s : TokenStream} {source : String} {p : Program} :
    s.programOf source = .ok p ↔ Grammar.Derives s.tokens p := by
  have hprogram : s.programOf source = .ok p ↔ s.program = .ok p := by
    unfold programOf
    cases s.program <;> simp [Except.mapError]
  exact hprogram.trans ⟨Grammar.derives_of_parses, Grammar.Derives.parses⟩

/-- A text has tokens if it has a name, is not empty, and can be scanned. -/
theorem tokenStream_eq_ok_iff {file source : String} {stream : TokenStream} :
    tokenStream file source = .ok stream ↔
      file ≠ "" ∧ source ≠ "" ∧
        ∃ ls, Lexeme.scan true (Text.unifyLineEnds source.toList) = .ok ls ∧
          ⟨.ofLexemes file (Text.unifyLineEnds source.toList) ls, 0⟩ = stream := by
  unfold tokenStream
  constructor
  · intro h
    cases htokenize : TokenizeRequest.tokenize ⟨some file, some source, true⟩ with
    | error e =>
      rw [htokenize] at h
      cases h
    | ok table =>
      rw [htokenize] at h
      cases h
      obtain ⟨hfile, hsource, ls, hscan, rfl⟩ := TokenizeRequest.tokenize_eq_ok_iff.1 htokenize
      exact ⟨hfile, hsource, ls, hscan, rfl⟩
  · rintro ⟨hfile, hsource, ls, hscan, rfl⟩
    rw [TokenizeRequest.tokenize_eq_ok_iff.2 ⟨hfile, hsource, ls, hscan, rfl⟩]
    rfl

theorem parseSource_eq_ok_iff_program {file source : String} {p : Program} :
    parseSource file source = .ok p ↔
      ∃ stream, tokenStream file source = .ok stream ∧ stream.programOf source = .ok p := by
  unfold parseSource
  cases tokenStream file source <;> simp [Except.mapError, bind, Except.bind]

/-- A text is parsed if it has a name, is not empty, and its tokens derive a program. -/
theorem parseSource_eq_ok_iff {file source : String} {p : Program} :
    parseSource file source = .ok p ↔
      file ≠ "" ∧ source ≠ "" ∧
        ∃ ls, Lexeme.scan true (Text.unifyLineEnds source.toList) = .ok ls ∧
          Grammar.Derives
            (Token.paired (ls.map (Lexeme.token file (Text.unifyLineEnds source.toList)))) p := by
  rw [parseSource_eq_ok_iff_program]
  constructor
  · rintro ⟨stream, hstream, hprogram⟩
    obtain ⟨hfile, hsource, ls, hscan, rfl⟩ := tokenStream_eq_ok_iff.1 hstream
    refine ⟨hfile, hsource, ls, hscan, ?_⟩
    rw [← TokenStream.tokens_ofLexemes hscan]
    exact TokenStream.programOf_eq_ok_iff.1 hprogram
  · rintro ⟨hfile, hsource, ls, hscan, hderives⟩
    refine ⟨_, tokenStream_eq_ok_iff.2 ⟨hfile, hsource, ls, hscan, rfl⟩, ?_⟩
    rw [← TokenStream.tokens_ofLexemes hscan] at hderives
    exact TokenStream.programOf_eq_ok_iff.2 hderives

/-- No line that a program records is further down than its text has characters. -/
theorem line_le_of_derives {file : String} {text : List Char} {ls : List Lexeme} {p : Program}
    (hscan : Lexeme.scan true text = .ok ls)
    (h : Grammar.Derives (Token.paired (ls.map (Lexeme.token file text))) p) :
    ∀ q ∈ p.positions, q.line.toNat ≤ 1 + text.length := by
  intro q hq
  obtain ⟨t, ht, rfl⟩ := List.mem_map.1 (h.positions_subset hq)
  obtain ⟨u, hu, hposition⟩ := Token.position_mem_of_paired ht
  obtain ⟨l, hl, rfl⟩ := List.mem_map.1 hu
  rw [← hposition]
  exact Lexeme.line_token_le hscan hl file

/-- Two programs with a line end between them are one program. The statements of the second and the
operators in them stand as many lines further down as the first program has lines, in the same columns. -/
theorem parseSource_append_newline (file s₁ s₂ : String) (p₁ p₂ : Program)
    (hs₁ : '\r' ∉ s₁.toList) (hs₂ : '\r' ∉ s₂.toList)
    (hlength : s₁.length + s₂.length < UInt32.size - 2)
    (h₁ : parseSource file s₁ = .ok p₁) (h₂ : parseSource file s₂ = .ok p₂) :
    let n := 1 + s₁.toList.count '\n'
    parseSource file (s₁ ++ "\n" ++ s₂) =
        .ok ⟨p₁.statements ++ (p₂.moved (Position.down n)).statements⟩ ∧
      ∀ q ∈ p₂.positions, (q.down n).line.toNat = q.line.toNat + n := by
  intro n
  obtain ⟨hfile, hne, ls, hscan, hderives⟩ := parseSource_eq_ok_iff.1 h₁
  obtain ⟨-, -, ms, hscan', hderives'⟩ := parseSource_eq_ok_iff.1 h₂
  rw [Text.unifyLineEnds_of_notMem hs₁] at hscan hderives
  rw [Text.unifyLineEnds_of_notMem hs₂] at hscan' hderives'
  have hjoined : (s₁ ++ "\n" ++ s₂).toList = s₁.toList ++ '\n' :: s₂.toList := by
    rw [String.toList_append, String.toList_append, List.append_assoc]
    rfl
  constructor
  · have hreturn : '\r' ∉ s₁.toList ++ '\n' :: s₂.toList := by simp [hs₁, hs₂]
    have hscanned := Lexeme.scan_append_newline hscan s₂.toList
    rw [hscan'] at hscanned
    obtain ⟨newline, hnewline, htokens⟩ := Lexeme.paired_scan_append_newline hscan hscan' file
    rw [parseSource_eq_ok_iff, hjoined, Text.unifyLineEnds_of_notMem hreturn]
    refine ⟨hfile, by simp, _, hscanned, ?_⟩
    rw [htokens]
    exact hderives.append hnewline (hderives'.moved _)
  · intro q hq
    have hline := line_le_of_derives hscan' hderives' q hq
    have hcount : s₁.toList.count '\n' ≤ s₁.toList.length := List.count_le_length
    rw [String.length_toList] at hline hcount
    exact Position.toNat_line_down (by omega)

/-- The first program has a comment that runs over a line end and ends in another. The second starts with a
blank line, and its operator moves down with it. -/
theorem parseSource_append_newline_commented :
    let place (line column : UInt32) : Position := ⟨"main", line, column⟩
    let first : Statement := ⟨.label "a", place 1 1⟩
    let second (line : UInt32) : Statement :=
      ⟨.print (.chain [.var "x", .var "y"] [⟨"<=", place line 9, 2⟩]), place line 1⟩
    parseSource "main" "@a /*\n*/ // b" = .ok ⟨[first]⟩ ∧
      parseSource "main" "\nprint x <= y" = .ok ⟨[second 2]⟩ ∧
      parseSource "main" "@a /*\n*/ // b\n\nprint x <= y" = .ok ⟨[first, second 4]⟩ := by
  intro place first second
  have hfirst : parseSource "main" "@a /*\n*/ // b" = .ok ⟨[first]⟩ := by cbv
  have hsecond : parseSource "main" "\nprint x <= y" = .ok ⟨[second 2]⟩ := by cbv
  obtain ⟨hjoined, -⟩ := parseSource_append_newline "main" _ _ _ _ (by decide) (by decide) (by decide)
    hfirst hsecond
  exact ⟨hfirst, hsecond, hjoined⟩

end GotoScript
