import GotoScript.Proofs.Language.Errors
import GotoScript.Proofs.Parsing.TokenLines
import GotoScript.Proofs.Running.Labels

/-!
# Where statements stand

A program records one place for each statement, and a runtime error names the place of a statement. This
module says that the place tells which statement it is.

* `Lexeme.Tiles.pairwise_follows` : of two lexemes, the later one follows the earlier one;
* `Token.pairwise_above` : the tokens of a text stand in order, and after a line end on a later line;
* `Statement.StartsLine` : a statement where the first token of its line was read;
* `statements_on_lines_of_their_own` : the statements of a source text, and the errors of its runs.
-/

namespace GotoScript

/-! ## Tokens in order -/

/-- Every lexeme of a tiled text follows what comes before the text. -/
theorem Lexeme.Tiles.slice_after {keep : Bool} {before text : List Char} {ls : List Lexeme}
    (h : Tiles keep before text ls) :
    ∀ l ∈ ls, ∃ pre post, text = pre ++ (l.chars ++ post) ∧ Placed keep (before ++ pre) l post := by
  induction h with
  | done => exact List.forall_mem_nil _
  | @lexeme before gap after l ls _ hl _ ih =>
      refine List.forall_mem_cons.2 ⟨⟨gap, after, rfl, hl⟩, fun m hm => ?_⟩
      obtain ⟨pre, post, rfl, hplaced⟩ := ih m hm
      refine ⟨gap ++ (l.chars ++ pre), post, by simp, ?_⟩
      simpa using hplaced

/-- Of two lexemes the later one follows all characters that the earlier one follows, those of the earlier one,
and those between them. -/
theorem Lexeme.Tiles.pairwise_follows {keep : Bool} {before text : List Char} {ls : List Lexeme}
    (h : Tiles keep before text ls) (file : String) :
    ls.Pairwise fun l m => ∃ pre between,
      (pre ++ (l.chars ++ between)).length ≤ (before ++ text).length ∧
      (l.token file (before ++ text)).Follows file pre ∧
      (m.token file (before ++ text)).Follows file (pre ++ (l.chars ++ between)) := by
  induction h with
  | done => exact .nil
  | @lexeme before gap after l ls _ hl hls ih =>
      have htext : before ++ (gap ++ (l.chars ++ after)) = before ++ gap ++ l.chars ++ after := by simp
      rw [htext]
      refine .cons (fun m hm => ?_) ih
      obtain ⟨between, post, rfl, hm⟩ := hls.slice_after m hm
      refine ⟨before ++ gap, between, ?_, ?_, ?_⟩
      · simp only [List.length_append]
        omega
      · have hfollows := hl.follows file
        rwa [← List.append_assoc] at hfollows
      · have hfollows := hm.follows file
        rw [← List.append_assoc (before ++ gap), ← List.append_assoc (before ++ gap ++ l.chars)]
        exact hfollows

namespace Token

theorem Follows.above {file : String} {pre between : List Char} {t u : Token} (ht : t.Follows file pre)
    (hu : u.Follows file (pre ++ (t.text.toList ++ between)))
    (hlength : (pre ++ (t.text.toList ++ between)).length < UInt32.size - 1) : t.Above u := by
  have hpre : pre.length < UInt32.size - 1 := by
    rw [List.length_append] at hlength
    omega
  obtain ⟨hline, -⟩ := ht.toNat_position hpre
  obtain ⟨hline', -⟩ := hu.toNat_position hlength
  rw [List.count_append, List.count_append] at hline'
  refine ⟨UInt32.le_iff_toNat_le.2 (by omega), fun hn => UInt32.lt_iff_toNat_lt.2 ?_⟩
  have hfeed : t.text.toList.count '\n' = 1 := by
    rw [show t.text = newline from of_decide_eq_true hn]
    decide
  omega

theorem pairwise_above_paired {ts : List Token} (h : ts.Pairwise Above) : (paired ts).Pairwise Above := by
  have habove {t : Token} {us : List Token} (ht : ∀ u ∈ us, t.Above u) : ∀ u ∈ paired us, t.Above u := by
    intro u hu
    obtain ⟨v, hv, hposition⟩ := position_mem_of_paired hu
    have hab := ht v hv
    unfold Above at hab ⊢
    rwa [hposition] at hab
  fun_induction paired ts with
  | case1 => exact .nil
  | case2 => exact h
  | case3 t u ts hjoins ih =>
      obtain ⟨ht, hrest⟩ := List.pairwise_cons.1 h
      obtain ⟨-, hts⟩ := List.pairwise_cons.1 hrest
      refine .cons (habove fun v hv => ⟨(ht v (.tail _ hv)).1, fun hn => ?_⟩) (ih hts)
      -- an operator of two marks is no line end
      have hmem := hjoins.1
      rw [show t.text ++ u.text = newline from of_decide_eq_true hn] at hmem
      exact absurd hmem (by decide)
  | case4 t u ts _ ih =>
      obtain ⟨ht, hrest⟩ := List.pairwise_cons.1 h
      exact .cons (habove ht) (ih hrest)

/-- The tokens of a text stand in order. -/
theorem pairwise_above {file source : String} {stream : TokenStream}
    (h : tokenStream file source = .ok stream) (hlength : source.length < UInt32.size - 1) :
    stream.tokens.Pairwise Above := by
  obtain ⟨-, -, ls, hscan, rfl⟩ := tokenStream_eq_ok_iff.1 h
  rw [TokenStream.tokens_ofLexemes hscan]
  apply pairwise_above_paired
  rw [List.pairwise_map]
  have hle := Text.length_unifyLineEnds_le source.toList
  rw [String.length_toList] at hle
  refine ((Lexeme.tiles_of_scan hscan).pairwise_follows file).imp ?_
  rintro l m ⟨pre, between, hbound, hl, hm⟩
  rw [List.nil_append] at hbound hl hm
  exact hl.above hm (Nat.lt_of_le_of_lt hbound (by omega))

end Token

/-! ## Statements and errors -/

/-- A statement that says what a line of tokens says, where the first of them was read from the source. -/
structure Statement.StartsLine (file source : String) (line : List Token) (s : Statement) : Prop where
  sentence : Grammar.Sentence line s
  file : s.position.file = file
  first : ∃ t ∈ line.head?, s.position = t.position ∧ ∃ before stretch after,
    source.toList = before ++ (stretch ++ after) ∧ t.ReadFrom before stretch after

/-- A statement of tokens of a text. -/
theorem Grammar.Sentence.startsLine {file source : String} {stream : TokenStream} {line : List Token}
    {s : Statement} (h : Sentence line s) (hstream : tokenStream file source = .ok stream)
    (hlength : source.length < UInt32.size - 1) (hline : line ⊆ stream.tokens) :
    s.StartsLine file source line := by
  have hsentence := h
  cases h with
  | @mk start =>
      have hstart : start ∈ stream.tokens := hline List.mem_cons_self
      obtain ⟨_, _, -, hfollows⟩ := exists_follows_of_tokenStream hstream (by omega) hstart
      obtain ⟨-, -, hread⟩ := exists_readFrom_of_tokenStream hstream hlength hstart
      exact ⟨hsentence, by rw [hfollows.position], start, rfl, rfl, hread⟩

/-- A step fails at the statement that it executes. -/
theorem Machine.position_of_failed {host : Host} {code : Code} {m m' : Machine} {failure : Failed}
    (h : m.step host code = .failed failure m') :
    (code.statements[m.counter]?).map (·.position) = some failure.position := by
  have hspec := stepSpec_step host code m
  rw [h] at hspec
  cases hspec with
  | lost hs | fault hs => rw [hs, Option.map_some]

/-- On lines of their own, statements at one place are one statement. -/
theorem eq_of_position_eq {statements : List Statement} {k k' : Nat} {place : Position}
    (h : statements.Pairwise fun s s' => s.position.line < s'.position.line)
    (hk : (statements[k]?).map (·.position) = some place) (hk' : (statements[k']?).map (·.position) = some place) :
    k = k' := by
  obtain ⟨s, hs, rfl⟩ := Option.map_eq_some_iff.1 hk
  obtain ⟨s', hs', hplace⟩ := Option.map_eq_some_iff.1 hk'
  obtain ⟨hlt, rfl⟩ := List.getElem?_eq_some_iff.1 hs
  obtain ⟨hlt', rfl⟩ := List.getElem?_eq_some_iff.1 hs'
  rw [List.pairwise_iff_getElem] at h
  rcases Nat.lt_trichotomy k k' with hless | heq | hless
  · have hline := h k k' hlt hlt' hless
    rw [hplace] at hline
    exact absurd hline (UInt32.lt_irrefl _)
  · exact heq
  · have hline := h k' k hlt' hlt hless
    rw [hplace] at hline
    exact absurd hline (UInt32.lt_irrefl _)

/-- The statements of a source text stand on lines of their own, further and further down, each where the first
token of its line was read. So the place in a runtime error is that of one statement only, the one that
failed. -/
theorem statements_on_lines_of_their_own (file source : String) (p : Program)
    (hlength : source.length < UInt32.size - 1) (h : parseSource file source = .ok p) :
    p.statements.Pairwise (fun s s' => s.position.line < s'.position.line) ∧
    (∃ stream, tokenStream file source = .ok stream ∧
      List.Forall₂ (Statement.StartsLine file source) (Token.lines stream.tokens) p.statements) ∧
    ∀ world fuel i report j failure, Interpreter.interpret world fuel p i = some (report, j) →
      report.outcome = .error failure →
        ∃ m m', p.Reaches world i.console m ∧
          m.step (world m.events) (Machine.start p i.console).1 = .failed failure m' ∧
          ∀ k, (p.statements[k]?).map (·.position) = some failure.position ↔ k = m.counter := by
  obtain ⟨stream, hstream, hprogram⟩ := parseSource_eq_ok_iff_program.1 h
  have hderives := TokenStream.programOf_eq_ok_iff.1 hprogram
  have hlines := hderives.pairwise_line (Token.pairwise_above hstream hlength)
  refine ⟨hlines, ⟨stream, hstream, ?_⟩, ?_⟩
  · obtain ⟨hcount, hsentences⟩ := List.forall₂_iff_zip.1 hderives.sentences
    refine List.forall₂_iff_zip.2 ⟨hcount, fun hmem => ?_⟩
    have hsubset := Token.subset_of_mem_lines (List.of_mem_zip hmem).1
    exact (hsentences hmem).startsLine hstream hlength hsubset
  · intro world fuel i report j failure hrun hout
    obtain ⟨m, m', hreach, hs⟩ := Interpreter.fails_iff.1 ⟨fuel, report, j, hrun, hout⟩
    have hplace := Machine.position_of_failed hs
    rw [Program.getElem?_start] at hplace
    refine ⟨m, m', hreach, hs, fun k => ⟨fun hk => eq_of_position_eq hlines hk hplace, ?_⟩⟩
    rintro rfl
    exact hplace

/-- A text and a comment that run over line ends, a blank line, and a variable that has no value. -/
theorem statements_on_lines_of_their_own_after_text :
    let p : Program :=
      ⟨[⟨.assign (.var "x") (.text "\n"), ⟨"main", 1, 1⟩⟩, ⟨.evaluate (.var "y"), ⟨"main", 5, 1⟩⟩]⟩
    let i : Interpreter := ⟨.keeping .unlimited, {}⟩
    parseSource "main" "x='\n'/*\n*/\n\ny" = .ok p ∧
      p.statements.Pairwise (fun s s' => s.position.line < s'.position.line) ∧
      ∀ world, ∃ fuel report j failure, i.interpret world fuel p = some (report, j) ∧
        report.outcome = .error failure ∧ failure = ⟨.undefinedVariable "y", ⟨"main", 5, 1⟩⟩ ∧
        ∀ k, (p.statements[k]?).map (·.position) = some failure.position ↔ k = 1 := by
  intro p i
  have hparsed : parseSource "main" "x='\n'/*\n*/\n\ny" = .ok p := by cbv
  obtain ⟨hlines, -, hruns⟩ := statements_on_lines_of_their_own "main" _ p (by decide) hparsed
  refine ⟨hparsed, hlines, fun world => ?_⟩
  have hseen : (i.interpret world 2 p).map (·.1.outcome) =
      some (.error ⟨.undefinedVariable "y", ⟨"main", 5, 1⟩⟩) := rfl
  obtain ⟨⟨report, j⟩, hrun, hout⟩ := Option.map_eq_some_iff.1 hseen
  obtain ⟨m, -, -, -, hplace⟩ := hruns world 2 i report j _ hrun hout
  have hcounter : 1 = m.counter := (hplace 1).1 rfl
  exact ⟨2, report, j, _, hrun, hout, rfl, hcounter ▸ hplace⟩

end GotoScript
