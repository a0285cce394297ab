import GotoScript.Proofs.Scanning.Offsets

/-!
# Lines and columns from scratch

A cursor counts lines and columns on its way and never goes back; a table records its answers. Here they are
compared with what is counted anew for every place, and led back to the offsets they came from.

* `Text.FirstBytes`, `Text.coordinates` : the characters before an offset, and the line and column behind them;
* `Text.lex_after` : further on in a text, the line is greater, or the column of the same line is;
* `TokenTable.getElem?_places` : a cursor answers with the furthest offset that it was asked for;
  `TokenTable.locates_ofLexemes` : the table of a text that was scanned;
* `line_column_from_scratch` : the entries of a table, and the answers of any cursor;
* `Text.exists_offsetOf?_after` : from lines and columns with unified line ends back into the text;
  `offsetOf?_inverts_tokenize` : where carriage returns stand only before line feeds, the lines and columns of a
  table lead back to its tokens.
-/

namespace GotoScript

namespace Text

/-! ## Counting from scratch -/

/-- The first `n` bytes of the text are `before`. -/
def FirstBytes (n : Nat) (text before : List Char) : Prop :=
  before <+: text ∧ byteLength before = n

/-- The line and the column behind some characters: one more than their line feeds, and one more than the
characters after the last line feed. -/
def coordinates (before : List Char) : Nat × Nat :=
  (1 + before.count '\n', 1 + (lastLine before).length)

theorem after_eq_ofNat (before : List Char) :
    after 1 1 before =
      (UInt32.ofNat (coordinates before).1, UInt32.ofNat (coordinates before).2) := by
  have hline := after_fst 1 1 before
  have hcolumn := after_snd 1 1 before
  rw [ite_self] at hcolumn
  exact Prod.ext (hline.trans (UInt32.ofNat_add 1 _).symm) (hcolumn.trans (UInt32.ofNat_add 1 _).symm)

theorem toNat_after_eq {before : List Char} (h : before.length < UInt32.size - 1) :
    ((after 1 1 before).1.toNat, (after 1 1 before).2.toNat) = coordinates before :=
  Prod.ext (toNat_after h).1 (toNat_after h).2

theorem place_of_firstBytes {n : Nat} {text before : List Char} (h : FirstBytes n text before) :
    place text n = after 1 1 before := by
  obtain ⟨⟨rest, rfl⟩, rfl⟩ := h
  exact place_append before rest

/-! ## The furthest offset -/

/-- The furthest of some offsets. -/
def furthest (offsets : List Nat) : Nat :=
  offsets.foldr max 0

/-- The offset is between two characters of the text, or beyond its end. -/
def IsBoundary (text : List Char) (offset : Nat) : Prop :=
  ∃ before, FirstBytes (min offset (byteLength text)) text before

theorem isBoundary_furthest {text : List Char} {offsets : List Nat}
    (h : ∀ offset ∈ offsets, IsBoundary text offset) : IsBoundary text (furthest offsets) := by
  induction offsets with
  | nil => exact ⟨[], List.nil_prefix, (Nat.zero_min _).symm⟩
  | cons offset later ih =>
    obtain ⟨hoffset, hlater⟩ := List.forall_mem_cons.1 h
    change IsBoundary text (max offset (furthest later))
    rcases Nat.le_total offset (furthest later) with hle | hle
    · rw [Nat.max_eq_right hle]
      exact ih hlater
    · rw [Nat.max_eq_left hle]
      exact hoffset

/-! ## The order of places -/

/-- Further on in a text that is not too long, the line is greater, or the column of the same line is. -/
theorem lex_after {before more : List Char} (hmore : more ≠ [])
    (hlength : (before ++ more).length < UInt32.size - 1) :
    Prod.Lex (· < ·) (· < ·) (after 1 1 before) (after 1 1 (before ++ more)) := by
  have hbefore : before.length < UInt32.size - 1 := by
    rw [List.length_append] at hlength
    omega
  obtain ⟨hline, hcolumn⟩ := toNat_after hbefore
  obtain ⟨hline', hcolumn'⟩ := toNat_after hlength
  rw [List.count_append] at hline'
  rw [Prod.lex_def]
  by_cases hfeed : '\n' ∈ more
  · have hpos : 0 < more.count '\n' := List.count_pos_iff.2 hfeed
    exact .inl (UInt32.lt_iff_toNat_lt.2 (by omega))
  · have hpos : 0 < more.length := List.length_pos_iff.2 hmore
    rw [List.count_eq_zero.2 hfeed] at hline'
    rw [lastLine_append hfeed, List.length_append] at hcolumn'
    exact .inr ⟨UInt32.toNat_inj.1 (by omega), UInt32.lt_iff_toNat_lt.2 (by omega)⟩

theorem FirstBytes.append_of_lt {a b : Nat} {text before before' : List Char} (h : FirstBytes a text before)
    (h' : FirstBytes b text before') (hlt : a < b) : ∃ more, more ≠ [] ∧ before' = before ++ more := by
  obtain ⟨hstart, rfl⟩ := h
  obtain ⟨hstart', rfl⟩ := h'
  rcases List.prefix_or_prefix_of_prefix hstart hstart' with ⟨more, rfl⟩ | ⟨more, rfl⟩
  · refine ⟨more, ?_, rfl⟩
    rintro rfl
    rw [List.append_nil] at hlt
    exact Nat.lt_irrefl _ hlt
  · rw [byteLength_append] at hlt
    omega

end Text

/-! ## Answers of a cursor -/

namespace TokenTable

open Text (LineCursor furthest)

theorem length_places (cursor : LineCursor) (offsets : List Nat) :
    (places cursor offsets).length = offsets.length := by
  induction offsets generalizing cursor with
  | nil => rfl
  | cons offset later ih => exact congrArg (· + 1) (ih _)

/-- A cursor answers with the place of the furthest offset that it was asked for so far. -/
theorem getElem?_places (cursor : LineCursor) {offsets : List Nat} {k : Nat} (hk : k < offsets.length) :
    (places cursor offsets)[k]? =
      some ((cursor.locate (furthest (offsets.take (k + 1)))).line,
        (cursor.locate (furthest (offsets.take (k + 1)))).column) := by
  induction offsets generalizing cursor k with
  | nil => exact absurd hk (Nat.not_lt_zero k)
  | cons offset later ih =>
    cases k with
    | zero =>
      have hfirst : furthest ((offset :: later).take 1) = offset := Nat.max_zero offset
      rw [hfirst]
      rfl
    | succ k =>
      have hmax : furthest ((offset :: later).take (k + 2)) =
          max offset (furthest (later.take (k + 1))) := rfl
      rw [hmax, ← Text.LineCursor.locate_locate_eq_max, places, List.getElem?_cons_succ,
        ih _ (Nat.lt_of_succ_lt_succ hk)]

end TokenTable

/-! ## The entries of a table -/

open Text (byteLength unifyLineEnds FirstBytes coordinates furthest)

theorem Lexeme.exists_firstBytes {keep : Bool} {text : List Char} {ls : List Lexeme} {l : Lexeme}
    (h : scan keep text = .ok ls) (hl : l ∈ ls) : ∃ before, FirstBytes l.offset text before := by
  obtain ⟨before, rest, htext, -, hoffset⟩ := exists_before h hl
  exact ⟨before, ⟨rest, htext.symm⟩, hoffset.symm⟩

namespace TokenTable

/-- The entries of the table are those of the lexemes. Lines and columns are counted from scratch, and every
entry is further on than those before it. -/
structure Locates (table : TokenTable) (text : List Char) (lexemes : List Lexeme) : Prop where
  values : table.values.toList = lexemes.map (·.text)
  lines_size : table.lines.size = table.values.size
  columns_size : table.columns.size = table.values.size
  counted : ∀ (i : Nat) (l : Lexeme), lexemes[i]? = some l → ∃ (before : List Char) (line column : UInt32),
    FirstBytes l.offset text before ∧ table.lines[i]? = some line ∧ table.columns[i]? = some column ∧
    (line.toNat, column.toNat) = coordinates before
  ascending : (table.lines.toList.zip table.columns.toList).Pairwise (Prod.Lex (· < ·) (· < ·))

section ofLexemes

variable {keep : Bool} {text : List Char} {ls : List Lexeme} (h : Lexeme.scan keep text = .ok ls)
include h

theorem getElem?_ofLexemes {i : Nat} {l : Lexeme} (hl : ls[i]? = some l) (file : String) :
    (ofLexemes file text ls).lines[i]? = some (Text.place text l.offset).1 ∧
      (ofLexemes file text ls).columns[i]? = some (Text.place text l.offset).2 := by
  rw [Lexeme.ofLexemes_eq h]
  simp [ofTokens, hl, Lexeme.token]

theorem zip_ofLexemes (file : String) :
    (ofLexemes file text ls).lines.toList.zip (ofLexemes file text ls).columns.toList =
      ls.map fun l => Text.place text l.offset := by
  rw [Lexeme.ofLexemes_eq h]
  simp [ofTokens, Lexeme.token, List.zip_map']

/-- The table of a text that was scanned. -/
theorem locates_ofLexemes (hlength : text.length < UInt32.size - 1) (file : String) :
    (ofLexemes file text ls).Locates text ls where
  values := rfl
  lines_size := by simp [ofLexemes, length_places]
  columns_size := by simp [ofLexemes, length_places]
  counted i l hl := by
    obtain ⟨before, hbefore⟩ := Lexeme.exists_firstBytes h (List.mem_of_getElem? hl)
    obtain ⟨hline, hcolumn⟩ := getElem?_ofLexemes h hl file
    refine ⟨before, _, _, hbefore, hline, hcolumn, ?_⟩
    rw [Text.place_of_firstBytes hbefore]
    exact Text.toNat_after_eq (Nat.lt_of_le_of_lt hbefore.1.length_le hlength)
  ascending := by
    rw [zip_ofLexemes h, List.pairwise_map]
    refine (Lexeme.tiles_of_scan h).pairwise.imp_of_mem fun {a b} ha hb hab => ?_
    obtain ⟨before, hbefore⟩ := Lexeme.exists_firstBytes h ha
    obtain ⟨before', hbefore'⟩ := Lexeme.exists_firstBytes h hb
    obtain ⟨more, hmore, rfl⟩ := hbefore.append_of_lt hbefore' hab.1
    rw [Text.place_of_firstBytes hbefore, Text.place_of_firstBytes hbefore']
    exact Text.lex_after hmore (Nat.lt_of_le_of_lt hbefore'.1.length_le hlength)

end ofLexemes

end TokenTable

/-- Lines and columns are those counted from scratch: in the table of a request that succeeds, and more generally
in the answers of a cursor that is asked for any offsets, one after another, where it has gone as far as the
furthest of them. -/
theorem line_column_from_scratch :
    (∀ (request : TokenizeRequest) (table : TokenTable), request.tokenize = .ok table →
      ∃ source lexemes, request.source = some source ∧
        Lexeme.scan request.keepLineEnds (unifyLineEnds source.toList) = .ok lexemes ∧
        (source.length < UInt32.size - 1 → table.Locates (unifyLineEnds source.toList) lexemes)) ∧
    ∀ (text : List Char) (offsets : List Nat),
      (∀ offset ∈ offsets, Text.IsBoundary text offset) →
      (TokenTable.places ⟨text, 0, 1, 1⟩ offsets).length = offsets.length ∧
      ∀ k < offsets.length, ∃ (before : List Char) (line column : UInt32),
        FirstBytes (min (furthest (offsets.take (k + 1))) (byteLength text)) text before ∧
        (TokenTable.places ⟨text, 0, 1, 1⟩ offsets)[k]? = some (line, column) ∧
        line = UInt32.ofNat (coordinates before).1 ∧ column = UInt32.ofNat (coordinates before).2 ∧
        (text.length < UInt32.size - 1 → (line.toNat, column.toNat) = coordinates before) := by
  constructor
  · intro request table h
    obtain ⟨file, source, lexemes, hsource, hscan, rfl⟩ := TokenizeRequest.exists_of_tokenize h
    refine ⟨source, lexemes, hsource, hscan, fun hlength => TokenTable.locates_ofLexemes hscan ?_ file⟩
    rw [← String.length_toList] at hlength
    exact Nat.lt_of_le_of_lt (Text.length_unifyLineEnds_le _) hlength
  · intro text offsets hoffsets
    refine ⟨TokenTable.length_places _ _, fun k hk => ?_⟩
    have hvisited : ∀ offset ∈ offsets.take (k + 1), Text.IsBoundary text offset :=
      fun offset hoffset => hoffsets offset (List.mem_of_mem_take hoffset)
    obtain ⟨before, hbefore⟩ := Text.isBoundary_furthest hvisited
    have hplace : Text.place text (furthest (offsets.take (k + 1))) = Text.after 1 1 before := by
      rw [← Text.place_min, Text.place_of_firstBytes hbefore]
    have hanswer := TokenTable.getElem?_places ⟨text, 0, 1, 1⟩ hk
    refine ⟨before, _, _, hbefore, hanswer.trans (congrArg some hplace), ?_, ?_, fun hlength => ?_⟩
    · rw [Text.after_eq_ofNat]
    · rw [Text.after_eq_ofNat]
    · exact Text.toNat_after_eq (Nat.lt_of_le_of_lt hbefore.1.length_le hlength)

/-- A quoted text over two lines moves the entry behind it down. A cursor that is asked for an offset behind it, and
then for one beyond the end, is at the end. -/
theorem line_column_from_scratch_far :
    let text := ['a', 'b', '\n', 'é', ' ', '=', '1']
    (∃ table lexemes, TokenizeRequest.tokenize ⟨some "main", some "x='a\r\nb' y", true⟩ = .ok table ∧
      table.lines = #[1, 1, 1, 2] ∧ table.columns = #[1, 2, 3, 4] ∧
      table.Locates (unifyLineEnds "x='a\r\nb' y".toList) lexemes) ∧
    TokenTable.places ⟨text, 0, 1, 1⟩ [3, 1, 99] = [(2, 1), (2, 1), (2, 5)] ∧
    ∃ before, FirstBytes 8 text before ∧ coordinates before = (2, 5) := by
  intro text
  have htable : TokenizeRequest.tokenize ⟨some "main", some "x='a\r\nb' y", true⟩ =
      .ok ⟨"main", #["x", "=", "'a\nb'", "y"], #[1, 1, 1, 2], #[1, 2, 3, 4]⟩ := by
    cbv
  have hplaces : TokenTable.places ⟨text, 0, 1, 1⟩ [3, 1, 99] = [(2, 1), (2, 1), (2, 5)] := by decide
  have hoffsets : ∀ offset ∈ [3, 1, 99], Text.IsBoundary text offset := by
    simp only [List.forall_mem_cons, List.not_mem_nil, false_imp_iff, implies_true, and_true]
    exact ⟨⟨['a', 'b', '\n'], by decide, rfl⟩, ⟨['a'], by decide, rfl⟩, ⟨text, by decide, rfl⟩⟩
  obtain ⟨source, lexemes, hsource, -, hlocates⟩ := line_column_from_scratch.1 _ _ htable
  cases hsource
  obtain ⟨-, hanswers⟩ := line_column_from_scratch.2 text _ hoffsets
  obtain ⟨before, line, column, hbefore, hanswer, -, -, hcounted⟩ := hanswers 2 (by decide)
  rw [hplaces] at hanswer
  cases hanswer
  exact ⟨⟨_, lexemes, htable, rfl, rfl, hlocates (by decide)⟩, hplaces, before, hbefore,
    (hcounted (by decide)).symm⟩

/-! ## And back -/

/-- In a text where carriage returns stand only before line feeds, the line and the column of a place lead back to
it, though they were counted with unified line ends. -/
theorem Text.exists_offsetOf?_after {cs pre post : List Char} (hreturns : PairedReturns cs)
    (hlength : cs.length < UInt32.size - 1) (h : unifyLineEnds cs = pre ++ post) (hpost : post ≠ []) :
    ∃ before, before <+: cs ∧ unifyLineEnds before = pre ∧
      offsetOf? cs (after 1 1 pre).1 (after 1 1 pre).2 = some (byteLength before) := by
  obtain ⟨before, rest, rfl, rfl, rfl, hcuts⟩ := exists_of_unifyLineEnds_append h
  refine ⟨before, List.prefix_append before rest, rfl, ?_⟩
  have hlone : loneReturns before = 0 := by
    rw [← loneReturns_eq_zero_iff, loneReturns_append hcuts] at hreturns
    omega
  have hbefore : (unifyLineEnds before).length < UInt32.size - 1 := by
    have hle := length_unifyLineEnds_le before
    rw [List.length_append] at hlength
    omega
  have hrest : rest ≠ [] := by
    rintro rfl
    exact hpost rfl
  -- up to here unifying has added no line and left the last one as it is
  obtain ⟨hline, hcolumn⟩ := toNat_after hbefore
  rw [count_unifyLineEnds, hlone, Nat.add_zero] at hline
  rw [lastLine_unifyLineEnds hlone] at hcolumn
  exact offsetOf?_append hline hcolumn hrest

/-- In a text where carriage returns stand only before line feeds, the line and the column of a token lead back to
the characters it was read after; without carriage returns these end at the token's own offset. -/
theorem offsetOf?_inverts_tokenize (request : TokenizeRequest) (source : String) (table : TokenTable)
    (h : request.tokenize = .ok table) (hsource : request.source = some source)
    (hlength : source.length < UInt32.size - 1) (hreturns : Text.PairedReturns source.toList) :
    ∃ lexemes, Lexeme.scan request.keepLineEnds (unifyLineEnds source.toList) = .ok lexemes ∧
      table.values.toList = lexemes.map (·.text) ∧
      ∀ (i : Nat) (l : Lexeme), lexemes[i]? = some l → ∃ line column offset before,
        table.lines[i]? = some line ∧ table.columns[i]? = some column ∧
        Text.place (unifyLineEnds source.toList) l.offset = (line, column) ∧
        Text.offsetOf? source.toList line column = some offset ∧
        FirstBytes offset source.toList before ∧
        FirstBytes l.offset (unifyLineEnds source.toList) (unifyLineEnds before) ∧
        ('\r' ∉ source.toList → offset = l.offset) := by
  obtain ⟨file, source', lexemes, hsource', hscan, rfl⟩ := TokenizeRequest.exists_of_tokenize h
  obtain rfl : source' = source := Option.some.inj (hsource'.symm.trans hsource)
  refine ⟨lexemes, hscan, rfl, fun i l hl => ?_⟩
  obtain ⟨hline, hcolumn⟩ := TokenTable.getElem?_ofLexemes hscan hl file
  obtain ⟨pre, post, htext, hpost, hoffset⟩ := Lexeme.exists_before hscan (List.mem_of_getElem? hl)
  rw [← String.length_toList] at hlength
  obtain ⟨before, hbefore, rfl, hback⟩ := Text.exists_offsetOf?_after hreturns hlength htext hpost
  have hfirst : FirstBytes l.offset (unifyLineEnds source'.toList) (unifyLineEnds before) :=
    ⟨⟨post, htext.symm⟩, hoffset.symm⟩
  rw [← Text.place_of_firstBytes hfirst] at hback
  refine ⟨_, _, _, before, hline, hcolumn, rfl, hback, ⟨hbefore, rfl⟩, hfirst, fun hnone => ?_⟩
  have hsame : unifyLineEnds before = before :=
    Text.unifyLineEnds_of_notMem fun hmem => hnone (hbefore.subset hmem)
  rw [hoffset, hsame]

/-- A word after a comment with an accented letter. Both line ends before it are two characters, so it stands two
bytes further on in the text than with unified line ends. -/
theorem offsetOf?_inverts_tokenize_returns :
    let source := "/*é\r\n*/\r\n y"
    TokenizeRequest.tokenize ⟨some "main", some source, true⟩ =
        .ok ⟨"main", #["\n", "y"], #[2, 3], #[3, 2]⟩ ∧
      Text.PairedReturns source.toList ∧ Text.offsetOf? source.toList 3 2 = some 11 ∧
      ∃ before, FirstBytes 11 source.toList before ∧
        FirstBytes 9 (unifyLineEnds source.toList) (unifyLineEnds before) := by
  intro source
  have htable : TokenizeRequest.tokenize ⟨some "main", some source, true⟩ =
      .ok ⟨"main", #["\n", "y"], #[2, 3], #[3, 2]⟩ := by
    cbv
  have hwords : Lexeme.scan true (unifyLineEnds source.toList) =
      .ok [⟨.lineEnd, "\n", 7⟩, ⟨.word, "y", 9⟩] := by
    cbv
  have heleven : Text.offsetOf? source.toList 3 2 = some 11 := by cbv
  have hreturns : Text.PairedReturns source.toList := Text.loneReturns_eq_zero_iff.1 (by cbv)
  obtain ⟨lexemes, hscan, -, hback⟩ := offsetOf?_inverts_tokenize _ _ _ htable rfl (by decide) hreturns
  obtain rfl := Except.ok.inj (hscan.symm.trans hwords)
  obtain ⟨line, column, offset, before, hline, hcolumn, -, hoffset, hbefore, hunified, -⟩ := hback 1 _ rfl
  cases hline
  cases hcolumn
  cases heleven.symm.trans hoffset
  exact ⟨htable, hreturns, heleven, before, hbefore, hunified⟩

end GotoScript
