import GotoScript.Proofs.Scanning.Coordinates
import GotoScript.Proofs.Scanning.Readers

/-!
# Operators of two marks

A reader puts the entries of a table together: two marks that touch in the text and spell `==`, `!=`, `<=` or `>=` are
one token, and every other entry is a token of its own. Whether entries touch is read off their lines and columns.

* `TokenReader.PopsToEnd` : the tokens that a reader gives until there are no more;
* `Token.StartsAt` : the entry at which a token starts; `Token.of_startsAt_paired` : which entries it is made of;
* `Lexeme.Pairs` : two marks of a text that are one operator; `Lexeme.joins_token_iff_pairs` : lines and columns tell
  the same;
* `consolidation_of_tokenize` : nothing is lost, and pairs are taken from the left.
-/

namespace GotoScript

/-! ## Popping to the end -/

namespace TokenReader

/-- Popped until nothing is left, the reader gives these tokens. -/
inductive PopsToEnd : TokenReader → List Token → Prop where
  | done {r : TokenReader} (h : r.pop.1 = none) : PopsToEnd r []
  | token {r : TokenReader} {t : Token} {ts : List Token} (h : r.pop.1 = some t)
    (hts : PopsToEnd r.pop.2 ts) : PopsToEnd r (t :: ts)

theorem Shows.pop {table : TokenTable} {r : TokenReader} {ts : List Token} (h : Shows table r ts) :
    r.pop.1 = ts.head? ∧ Shows table r.pop.2 (ts.drop 1) := by
  obtain ⟨r', hpop, hstream, hcoherent⟩ := pop_gives h.coherent
  rw [hpop, TokenStream.pop_fst]
  exact ⟨h.stream.peek_eq, hcoherent, hstream ▸ h.stream.pop⟩

theorem Shows.popsToEnd {table : TokenTable} {r : TokenReader} {ts : List Token} (h : Shows table r ts) :
    PopsToEnd r ts := by
  induction ts generalizing r with
  | nil => exact .done h.pop.1
  | cons t ts ih => exact .token h.pop.1 (ih h.pop.2)

end TokenReader

/-! ## The entries of a token -/

namespace Token

/-- The tokens before `t` are made of `k` entries, so that `t` starts at the entry `k`. -/
def StartsAt (ts : List Token) (k : Nat) (t : Token) : Prop :=
  ∃ earlier later, ts = earlier ++ t :: later ∧ (earlier.map (·.width.toNat)).sum = k

theorem not_startsAt_nil {k : Nat} {t : Token} : ¬ StartsAt [] k t := by
  rintro ⟨earlier, later, h, -⟩
  exact List.append_ne_nil_of_right_ne_nil earlier (List.cons_ne_nil t later) h.symm

theorem startsAt_cons_iff {u t : Token} {ts : List Token} {k : Nat} :
    StartsAt (u :: ts) k t ↔ k = 0 ∧ t = u ∨ ∃ j, k = u.width.toNat + j ∧ StartsAt ts j t := by
  constructor
  · rintro ⟨earlier, later, h, rfl⟩
    cases earlier with
    | nil => exact .inl ⟨rfl, (List.cons.inj h).1.symm⟩
    | cons v earlier =>
      obtain ⟨rfl, rfl⟩ := List.cons.inj h
      exact .inr ⟨_, List.sum_cons, earlier, later, rfl, rfl⟩
  · rintro (⟨rfl, rfl⟩ | ⟨j, rfl, earlier, later, rfl, rfl⟩)
    · exact ⟨[], ts, rfl, rfl⟩
    · exact ⟨u :: earlier, later, rfl, List.sum_cons⟩

theorem sum_width_paired {ts : List Token} (hts : ∀ t ∈ ts, t.width = 1) :
    ((paired ts).map (·.width.toNat)).sum = ts.length := by
  fun_induction paired ts with
  | case1 => rfl
  | case2 t => rw [List.map_singleton, List.sum_singleton, hts t (.head _)]; rfl
  | case3 t u ts _ ih =>
    rw [List.map_cons, List.sum_cons, ih fun v hv => hts v (.tail _ (.tail _ hv)), List.length_cons, List.length_cons,
      Nat.add_comm]
    rfl
  | case4 t u ts _ ih =>
    rw [List.map_cons, List.sum_cons, ih fun v hv => hts v (.tail _ hv), hts t (.head _), List.length_cons (a := t),
      Nat.add_comm]
    rfl

theorem join_text_paired (ts : List Token) :
    String.join ((paired ts).map (·.text)) = String.join (ts.map (·.text)) := by
  fun_induction paired ts with
  | case1 => rfl
  | case2 => rfl
  | case3 t u ts _ ih => simp only [List.map_cons, String.join_cons, ih, String.append_assoc]
  | case4 t u ts _ ih => rw [List.map_cons, String.join_cons, ih, ← String.join_cons, ← List.map_cons]

/-- A token is the entry at which it starts, if that one does not join with the next, or else both of them. -/
theorem of_startsAt_paired {ts : List Token} {k : Nat} {t : Token} (hts : ∀ t ∈ ts, t.width = 1)
    (h : StartsAt (paired ts) k t) :
    ∃ u, ts[k]? = some u ∧
      (t = u ∧ (∀ v ∈ ts[k + 1]?, ¬ u.Joins v) ∨
        ∃ v ∈ ts[k + 1]?, u.Joins v ∧ t = ⟨u.text ++ v.text, u.position, 2⟩) := by
  -- by the recursion of `paired`: the first token, or a later one in the entries after it
  fun_induction paired ts generalizing k with
  | case1 => exact absurd h not_startsAt_nil
  | case2 u =>
    obtain ⟨rfl, rfl⟩ | ⟨j, -, hj⟩ := startsAt_cons_iff.1 h
    · exact ⟨t, rfl, .inl ⟨rfl, fun v hv => absurd hv (Option.not_mem_none v)⟩⟩
    · exact absurd hj not_startsAt_nil
  | case3 u v ts hjoins ih =>
    obtain ⟨rfl, rfl⟩ | ⟨j, hk, hj⟩ := startsAt_cons_iff.1 h
    · exact ⟨u, rfl, .inr ⟨v, rfl, hjoins, rfl⟩⟩
    · obtain rfl : k = j + 2 := hk.trans (Nat.add_comm 2 j)
      exact ih (fun w hw => hts w (.tail _ (.tail _ hw))) hj
  | case4 u v ts hjoins ih =>
    obtain ⟨rfl, rfl⟩ | ⟨j, hk, hj⟩ := startsAt_cons_iff.1 h
    · refine ⟨t, rfl, .inl ⟨rfl, ?_⟩⟩
      intro w hw
      obtain rfl : v = w := Option.some.inj hw
      exact hjoins
    · rw [hts u (.head _)] at hk
      obtain rfl : k = j + 1 := hk.trans (Nat.add_comm 1 j)
      exact ih (fun w hw => hts w (.tail _ hw)) hj

end Token

/-! ## Pairs in the text -/

namespace Lexeme

/-- Two marks of a text with nothing between them that spell an operator. -/
structure Pairs (l m : Lexeme) : Prop where
  marks : l.kind = .mark ∧ m.kind = .mark
  touch : l.stop = m.offset
  operator : l.text ++ m.text ∈ ["==", "!=", "<=", ">="]

/-- The lexeme of a character that operators have is a mark. -/
theorem Form.kind_eq_mark {keep : Bool} {kind : Kind} {c : Char} {rest : List Char}
    (h : Form keep (some kind) [c] rest) (hc : c ∈ ['=', '!', '<', '>']) : kind = .mark := by
  have hword : isWordChar c = false := by
    simp only [List.mem_cons, List.not_mem_nil, or_false] at hc
    rcases hc with rfl | rfl | rfl | rfl <;> rfl
  generalize hchars : [c] = chars at h
  cases h with
  | word hne hall _ =>
    have hc' := hall c (hchars ▸ List.mem_singleton_self c)
    rw [hword] at hc'
    cases hc'
  | quoted hq hbody => simp at hchars
  | lineEnd =>
    obtain rfl : c = '\n' := (List.cons.inj hchars).1
    exact absurd hc (by decide)
  | mark => rfl

theorem Placed.stop_eq {keep : Bool} {before after : List Char} {l : Lexeme} (h : Placed keep before l after) :
    l.stop = Text.byteLength (before ++ l.chars) := by
  rw [stop, h.offset, Text.byteLength_append]

/-- By their lines and columns a lexeme and the next join where the text has an operator. -/
theorem joins_token_iff_pairs {keep : Bool} {text : List Char} {ls : List Lexeme} {l m : Lexeme}
    (hscan : scan keep text = .ok ls) (hlength : text.length < UInt32.size) (hlm : [l, m] <:+: ls)
    (file : String) : (l.token file text).Joins (m.token file text) ↔ l.Pairs m := by
  obtain ⟨pre, gap, post, htext, hl, hm, hfollows, hfollows'⟩ := exists_neighbours hscan hlm file
  have hmarks (h : l.text ++ m.text ∈ TokenStream.joinedOperators) :
      ∃ c ∈ ['=', '!', '<', '>'], l.chars = [c] ∧ m.chars = ['='] :=
    TokenStream.exists_mark_of_joined hl.form.ne_nil hm.form.ne_nil h
  constructor
  · intro hjoins
    obtain ⟨c, hc, hlchars, hmchars⟩ := hmarks hjoins.1
    have hgap : gap.length < UInt32.size := by
      rw [htext] at hlength
      simp only [List.length_append] at hlength
      omega
    obtain rfl := hjoins.eq_nil hfollows hfollows' hgap
    refine ⟨⟨?_, ?_⟩, ?_, hjoins.1⟩
    · have hform := hl.form
      rw [hlchars] at hform
      exact hform.kind_eq_mark hc
    · have hform := hm.form
      rw [hmchars] at hform
      exact hform.kind_eq_mark (by decide)
    · rw [hl.stop_eq, hm.offset, List.append_nil]
  · intro hpairs
    obtain ⟨c, hc, hlchars, -⟩ := hmarks hpairs.operator
    have hgap : gap = [] := by
      have htouch := hpairs.touch
      rw [hl.stop_eq, hm.offset, ← List.append_assoc, Text.byteLength_append (pre ++ l.chars)] at htouch
      by_contra hne
      have hpos := byteLength_pos hne
      omega
    have hfeed : c ≠ '\n' := by
      rintro rfl
      exact absurd hc (by decide)
    -- one character that is no line feed takes the column on by one
    refine ⟨hpairs.operator, ?_⟩
    rw [Position.touches, hfollows.position, hfollows'.position, hgap, hlchars, List.append_nil, Text.after_append,
      Text.after, if_neg hfeed, Bool.and_eq_true]
    exact ⟨decide_eq_true rfl, decide_eq_true rfl⟩

theorem width_of_mem_map_token {file : String} {text : List Char} {ls : List Lexeme} :
    ∀ t ∈ ls.map (token file text), t.width = 1 := by
  intro t ht
  obtain ⟨l, -, rfl⟩ := List.mem_map.1 ht
  rfl

theorem infix_of_getElem? {ls : List Lexeme} {k : Nat} {l m : Lexeme} (hl : ls[k]? = some l)
    (hm : ls[k + 1]? = some m) : [l, m] <:+: ls := by
  obtain ⟨hlt, -⟩ := List.getElem?_eq_some_iff.1 hm
  rw [List.infix_iff_getElem?]
  refine ⟨k, ?_, ?_⟩
  · change 2 + k ≤ ls.length
    omega
  · intro i hi
    match i, hi with
    | 0, _ => rw [Nat.zero_add]; exact hl
    | 1, _ => rw [Nat.add_comm]; exact hm

/-- The token that starts at the lexeme `k`: this one, if it does not pair with the next, or else both of them. -/
inductive Makes (ls : List Lexeme) (k : Nat) (t : Token) : Prop where
  | single {l : Lexeme} (hl : ls[k]? = some l) (halone : ∀ m ∈ ls[k + 1]?, ¬ l.Pairs m)
    (width : t.width = 1) (text : t.text = l.text)
  | operator {l m : Lexeme} (hl : ls[k]? = some l) (hm : ls[k + 1]? = some m) (hpairs : l.Pairs m)
    (width : t.width = 2) (text : t.text = l.text ++ m.text)

theorem makes_of_startsAt {keep : Bool} {text : List Char} {ls : List Lexeme} {file : String} {k : Nat} {t : Token}
    (hscan : scan keep text = .ok ls) (hlength : text.length < UInt32.size)
    (h : Token.StartsAt (Token.paired (ls.map (token file text))) k t) :
    Makes ls k t ∧ ∃ l, ls[k]? = some l ∧ t.position = (l.token file text).position := by
  have hget {j : Nat} {u : Token} (hu : (ls.map (token file text))[j]? = some u) :
      ∃ l, ls[j]? = some l ∧ l.token file text = u := by
    rw [List.getElem?_map] at hu
    exact Option.map_eq_some_iff.1 hu
  have hiff {l m : Lexeme} (hl : ls[k]? = some l) (hm : ls[k + 1]? = some m) :
      (l.token file text).Joins (m.token file text) ↔ l.Pairs m :=
    joins_token_iff_pairs hscan hlength (infix_of_getElem? hl hm) file
  obtain ⟨u, hu, ⟨rfl, halone⟩ | ⟨v, hv, hjoins, rfl⟩⟩ := Token.of_startsAt_paired width_of_mem_map_token h
  · obtain ⟨l, hl, rfl⟩ := hget hu
    refine ⟨.single hl ?_ rfl rfl, l, hl, rfl⟩
    intro m hm hpairs
    refine halone (m.token file text) ?_ ((hiff hl hm).2 hpairs)
    rw [List.getElem?_map, Option.mem_def.1 hm]
    rfl
  · obtain ⟨l, hl, rfl⟩ := hget hu
    obtain ⟨m, hm, rfl⟩ := hget hv
    exact ⟨.operator hl hm ((hiff hl hm).1 hjoins) rfl rfl, l, hl, rfl⟩

end Lexeme

/-- Popped to the end, the tokens of a text have as many entries as its table, and their texts follow each other as
those of the table do. Each stands where its first entry stands. Two marks that touch and spell an operator are one
token, unless the first of them belongs to the token before; every other lexeme is a token of its own. -/
theorem consolidation_of_tokenize (file source : String) (table : TokenTable)
    (hlength : source.length < UInt32.size - 1)
    (h : TokenizeRequest.tokenize ⟨some file, some source, true⟩ = .ok table) :
    ∃ lexemes tokens,
      Lexeme.scan true (Text.unifyLineEnds source.toList) = .ok lexemes ∧
      table.values.toList = lexemes.map (·.text) ∧
      (TokenReader.ofTable table).PopsToEnd tokens ∧
      (tokens.map (·.width.toNat)).sum = table.size ∧
      String.join (tokens.map (·.text)) = String.join table.values.toList ∧
      ∀ k t, Token.StartsAt tokens k t →
        Lexeme.Makes lexemes k t ∧ t.position.file = file ∧
          table.lines[k]? = some t.position.line ∧ table.columns[k]? = some t.position.column := by
  obtain ⟨-, -, lexemes, hscan, rfl⟩ := TokenizeRequest.tokenize_eq_ok_iff.1 h
  have hshort : (Text.unifyLineEnds source.toList).length < UInt32.size := by
    have hle := Text.length_unifyLineEnds_le source.toList
    rw [String.length_toList] at hle
    omega
  generalize Text.unifyLineEnds source.toList = text at hscan hshort ⊢
  have hshows := TokenReader.shows_ofTable (.ofLexemes file text lexemes)
  rw [TokenStream.tokens_ofLexemes hscan] at hshows
  refine ⟨lexemes, _, hscan, ?_, hshows.popsToEnd, ?_, ?_, ?_⟩
  · rfl
  · rw [Token.sum_width_paired Lexeme.width_of_mem_map_token]
    simp [TokenTable.size, TokenTable.ofLexemes]
  · rw [Token.join_text_paired]
    simp [TokenTable.ofLexemes, Lexeme.token, Function.comp_def]
  · intro k t ht
    obtain ⟨hmakes, l, hl, hposition⟩ := Lexeme.makes_of_startsAt hscan hshort ht
    rw [hposition]
    exact ⟨hmakes, rfl, TokenTable.getElem?_ofLexemes hscan hl file⟩

/-- A run of five marks, of which the last is left over, with one apart from it and one on the next line. -/
theorem consolidation_of_run_of_marks :
    let source := "<==== =\n="
    let table : TokenTable :=
      ⟨"main", #["<", "=", "=", "=", "=", "=", "\n", "="], #[1, 1, 1, 1, 1, 1, 1, 2], #[1, 2, 3, 4, 5, 7, 8, 1]⟩
    TokenizeRequest.tokenize ⟨some "main", some source, true⟩ = .ok table ∧
      ∃ t ts, (TokenReader.ofTable table).PopsToEnd (t :: ts) ∧ t = ⟨"<=", ⟨"main", 1, 1⟩, 2⟩ ∧
        (ts.map (·.width.toNat)).sum = 6 := by
  intro source table
  have htable : TokenizeRequest.tokenize ⟨some "main", some source, true⟩ = .ok table := by cbv
  have hmarks : Lexeme.scan true (Text.unifyLineEnds source.toList) =
      .ok [⟨.mark, "<", 0⟩, ⟨.mark, "=", 1⟩, ⟨.mark, "=", 2⟩, ⟨.mark, "=", 3⟩, ⟨.mark, "=", 4⟩, ⟨.mark, "=", 6⟩,
        ⟨.lineEnd, "\n", 7⟩, ⟨.mark, "=", 8⟩] := by
    cbv
  obtain ⟨lexemes, tokens, hscan, -, hpops, hsum, -, hmakes⟩ :=
    consolidation_of_tokenize "main" source table (by decide) htable
  obtain rfl := Except.ok.inj (hscan.symm.trans hmarks)
  refine ⟨htable, ?_⟩
  cases tokens with
  | nil => cases hsum
  | cons t ts =>
    obtain ⟨text, ⟨file, line, column⟩, width⟩ := t
    obtain ⟨hfirst, hfile, hline, hcolumn⟩ := hmakes 0 _ ⟨[], ts, rfl, rfl⟩
    cases hfirst with
    | single hl halone =>
      cases hl
      exact absurd ⟨⟨rfl, rfl⟩, rfl, by decide⟩ (halone _ rfl)
    | operator hl hm _ hwidth htext =>
      cases hl
      cases hm
      obtain rfl : width = 2 := hwidth
      obtain rfl : text = "<=" := htext
      obtain rfl : file = "main" := hfile
      obtain rfl : 1 = line := Option.some.inj hline
      obtain rfl : 1 = column := Option.some.inj hcolumn
      exact ⟨_, ts, hpops, rfl, Nat.add_left_cancel (n := 2) hsum⟩

end GotoScript
