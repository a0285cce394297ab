import GotoScript.Proofs.Scanning.Places
import GotoScript.Token.Stream

/-!
# The tokens of a text

A stream reads its tokens from a table by index. This module describes them as a list:

* `Token.paired` : entries in turn, where two that touch and spell an operator become one;
* `TokenTable.ofTokens` : the table of a list of entries; `TokenStream.tokensFrom_ofTokens` : a stream on
  it gives the paired entries;
* `Lexeme.token` : a lexeme as an entry; `TokenStream.tokens_ofLexemes` : the tokens of a text that was
  scanned;
* `Token.paired_append` : a token that never joins parts the entries; `Token.paired_map_moved` : only
  which entries touch matters;
* `TokenizeRequest.tokenize_eq_ok_iff`, `TokenizeRequest.exists_of_tokenize` : when a request to tokenize succeeds.
-/

namespace GotoScript

/-! ## Pairs of entries -/

/-- The second place is one column after the first. -/
def Position.touches (p q : Position) : Bool :=
  p.line = q.line && p.column + 1 = q.column

namespace Token

/-- Together the tokens are an operator of two marks. -/
def Joins (t u : Token) : Prop :=
  t.text ++ u.text ∈ TokenStream.joinedOperators ∧ t.position.touches u.position

instance (t u : Token) : Decidable (t.Joins u) :=
  inferInstanceAs (Decidable (_ ∧ _))

/-- The tokens that entries make, taken from the left. -/
def paired : List Token → List Token
  | [] => []
  | [t] => [t]
  | t :: u :: ts =>
    if t.Joins u then ⟨t.text ++ u.text, t.position, 2⟩ :: paired ts else t :: paired (u :: ts)

theorem paired_of_not_joins {t : Token} {ts : List Token} (h : ∀ u ∈ ts.head?, ¬ t.Joins u) :
    paired (t :: ts) = t :: paired ts := by
  cases ts with
  | nil => rfl
  | cons u us => exact if_neg (h u rfl)

/-- A token stands where its first entry stands. -/
theorem position_mem_of_paired {ts : List Token} {t : Token} (h : t ∈ paired ts) :
    ∃ u ∈ ts, u.position = t.position := by
  fun_induction paired ts with
  | case1 => exact absurd h List.not_mem_nil
  | case2 u => exact ⟨t, h, rfl⟩
  | case3 u v ts _ ih =>
    rcases List.mem_cons.1 h with rfl | h
    · exact ⟨u, .head _, rfl⟩
    · obtain ⟨w, hw, hposition⟩ := ih h
      exact ⟨w, .tail _ (.tail _ hw), hposition⟩
  | case4 u v ts _ ih =>
    rcases List.mem_cons.1 h with rfl | h
    · exact ⟨t, .head _, rfl⟩
    · obtain ⟨w, hw, hposition⟩ := ih h
      exact ⟨w, .tail _ hw, hposition⟩

/-- A token does not join with a character that no operator has. -/
theorem not_joins_of_mem {c : Char} (hc : ∀ text ∈ TokenStream.joinedOperators, c ∉ text.toList)
    {t u : Token} (h : c ∈ t.text.toList ∨ c ∈ u.text.toList) : ¬ t.Joins u := by
  rintro ⟨hmem, -⟩
  refine hc _ hmem ?_
  rw [String.toList_append, List.mem_append]
  exact h

theorem not_joins_of_isNewline {t u : Token} (h : t.isNewline ∨ u.isNewline) : ¬ t.Joins u := by
  have hfeed {t : Token} (ht : t.isNewline) : '\n' ∈ t.text.toList := by
    rw [show t.text = newline from of_decide_eq_true ht]
    decide
  exact not_joins_of_mem (by decide) (h.imp hfeed hfeed)

/-- A token that never joins parts the entries before it from those after it. -/
theorem paired_append {n : Token} (hleft : ∀ t : Token, ¬ t.Joins n) (hright : ∀ u, ¬ n.Joins u)
    (ts us : List Token) : paired (ts ++ n :: us) = paired ts ++ n :: paired us := by
  fun_induction paired ts with
  | case1 => exact paired_of_not_joins fun u _ => hright u
  | case2 t =>
    have hnext : ∀ u ∈ (n :: us).head?, ¬ t.Joins u := by
      rintro u ⟨⟩
      exact hleft t
    rw [List.singleton_append, paired_of_not_joins hnext, paired_of_not_joins fun u _ => hright u,
      List.singleton_append]
  | case3 t u ts hjoins ih =>
    rw [List.cons_append, List.cons_append, paired, if_pos hjoins, ih, List.cons_append]
  | case4 t u ts hjoins ih =>
    rw [List.cons_append, List.cons_append, paired, if_neg hjoins, ← List.cons_append, ih,
      List.cons_append]

/-- No operator runs across a line end. -/
theorem paired_append_newline {n : Token} (hn : n.isNewline) (ts us : List Token) :
    paired (ts ++ n :: us) = paired ts ++ n :: paired us :=
  paired_append (fun _ => not_joins_of_isNewline (.inr hn)) (fun _ => not_joins_of_isNewline (.inl hn)) ts us

/-- The same token at another place. -/
def moved (g : Position → Position) (t : Token) : Token :=
  { t with position := g t.position }

/-- Entries that touch as before are paired as before. -/
theorem paired_map_moved {g : Position → Position} {ts : List Token}
    (hg : ∀ t ∈ ts, ∀ u ∈ ts, (g t.position).touches (g u.position) = t.position.touches u.position) :
    paired (ts.map (moved g)) = (paired ts).map (moved g) := by
  have hjoins {t u : Token} (htouches : (g t.position).touches (g u.position) = t.position.touches u.position) :
      (t.moved g).Joins (u.moved g) ↔ t.Joins u := by
    unfold Joins moved
    rw [htouches]
  fun_induction paired ts with
  | case1 => rfl
  | case2 => rfl
  | case3 t u ts h ih =>
    have hfirst := hjoins (hg t (.head _) u (.tail _ (.head _)))
    rw [List.map_cons, List.map_cons, paired, if_pos (hfirst.2 h),
      ih fun v hv w hw => hg v (.tail _ (.tail _ hv)) w (.tail _ (.tail _ hw)), List.map_cons]
    rfl
  | case4 t u ts h ih =>
    have hfirst := hjoins (hg t (.head _) u (.tail _ (.head _)))
    rw [List.map_cons, List.map_cons, paired, if_neg (mt hfirst.1 h), ← List.map_cons,
      ih fun v hv w hw => hg v (.tail _ hv) w (.tail _ hw), List.map_cons]

end Token

/-! ## Tables -/

/-- The table of entries. -/
def TokenTable.ofTokens (file : String) (ts : List Token) : TokenTable :=
  ⟨file, (ts.map (·.text)).toArray, (ts.map (·.position.line)).toArray,
    (ts.map (·.position.column)).toArray⟩

/-- A token that a single entry of a file makes. -/
structure Token.IsEntry (file : String) (t : Token) : Prop where
  file : t.position.file = file
  width : t.width = 1

namespace TokenStream

theorem tokensFrom_of_tokenAt? {t : TokenTable} {i : Nat} {token : Token}
    (h : tokenAt? t i = some token) :
    tokensFrom t i = token :: tokensFrom t (i + token.width.toNat) := by
  rw [tokensFrom]
  split
  · next hnone =>
    rw [h] at hnone
    cases hnone
  · next token' htoken =>
    rw [h] at htoken
    cases htoken
    rfl

theorem tokensFrom_of_not_joined {t : TokenTable} {i : Nat} {text : String}
    (h : t.values[i]? = some text)
    (hnext : ∀ next, t.values[i + 1]? = some next → text ++ next ∉ joinedOperators) :
    tokensFrom t i = ⟨text, positionAt t i, 1⟩ :: tokensFrom t (i + 1) := by
  have htoken : tokenAt? t i = some ⟨text, positionAt t i, 1⟩ := by
    unfold tokenAt?
    rw [h]
    cases hn : t.values[i + 1]? with
    | none => rfl
    | some next => exact if_neg fun hjoined => hnext next hn hjoined.1
  exact tokensFrom_of_tokenAt? htoken

theorem tokensFrom_of_tokenAt?_eq_none {t : TokenTable} {i : Nat} (h : tokenAt? t i = none) :
    tokensFrom t i = [] := by
  rw [tokensFrom]
  split
  · rfl
  · next token htoken =>
    rw [h] at htoken
    cases htoken

theorem tokensFrom_end {t : TokenTable} {i : Nat} (h : t.values[i]? = none) :
    tokensFrom t i = [] := by
  apply tokensFrom_of_tokenAt?_eq_none
  unfold tokenAt?
  rw [h]

section ofTokens

variable {file : String} {ts : List Token} {i : Nat} {t u : Token}

theorem positionAt_ofTokens (h : ts[i]? = some t) (ht : t.IsEntry file) :
    positionAt (.ofTokens file ts) i = t.position := by
  simp [positionAt, TokenTable.ofTokens, h, ← ht.file]

theorem tokenAt?_ofTokens_last (h : ts[i]? = some t) (ht : t.IsEntry file)
    (hnext : ts[i + 1]? = none) : tokenAt? (.ofTokens file ts) i = some t := by
  have hvalue : (TokenTable.ofTokens file ts).values[i]? = some t.text := by
    simp [TokenTable.ofTokens, h]
  have hend : (TokenTable.ofTokens file ts).values[i + 1]? = none := by
    simp [TokenTable.ofTokens, hnext]
  unfold tokenAt?
  rw [hvalue, hend, positionAt_ofTokens h ht, ← ht.width]

theorem tokenAt?_ofTokens_pair (h : ts[i]? = some t) (ht : t.IsEntry file)
    (hnext : ts[i + 1]? = some u) :
    tokenAt? (.ofTokens file ts) i =
      some (if t.Joins u then ⟨t.text ++ u.text, t.position, 2⟩ else t) := by
  have hvalue : (TokenTable.ofTokens file ts).values[i]? = some t.text := by
    simp [TokenTable.ofTokens, h]
  have hvalue' : (TokenTable.ofTokens file ts).values[i + 1]? = some u.text := by
    simp [TokenTable.ofTokens, hnext]
  have htouches : touches (.ofTokens file ts) i = t.position.touches u.position := by
    simp [touches, TokenTable.ofTokens, h, hnext, Position.touches]
  unfold tokenAt?
  rw [hvalue, hvalue', positionAt_ofTokens h ht, htouches]
  dsimp only
  rw [← ht.width, apply_ite some]
  rfl

/-- A stream gives the paired entries of its table. -/
theorem tokensFrom_ofTokens (hts : ∀ t ∈ ts, t.IsEntry file) (i : Nat) {rest : List Token}
    (hrest : ts.drop i = rest) : tokensFrom (.ofTokens file ts) i = Token.paired rest := by
  have hget {i : Nat} {rest : List Token} (hrest : ts.drop i = rest) :
      ts[i]? = rest[0]? ∧ ts[i + 1]? = rest[1]? := by
    rw [← hrest, List.getElem?_drop, List.getElem?_drop]
    exact ⟨rfl, rfl⟩
  fun_induction Token.paired rest generalizing i with
  | case1 => exact tokensFrom_end (by simpa [TokenTable.ofTokens] using (hget hrest).1)
  | case2 t =>
    obtain ⟨hfirst, hnext⟩ := hget hrest
    have ht : t.IsEntry file := hts t (List.mem_of_getElem? hfirst)
    rw [tokensFrom_of_tokenAt? (tokenAt?_ofTokens_last hfirst ht hnext), ht.width]
    exact congrArg _ (tokensFrom_end (by simpa [TokenTable.ofTokens] using hnext))
  | case3 t u rest hjoins ih =>
    obtain ⟨hfirst, hnext⟩ := hget hrest
    have ht : t.IsEntry file := hts t (List.mem_of_getElem? hfirst)
    have htoken := tokenAt?_ofTokens_pair hfirst ht hnext
    rw [if_pos hjoins] at htoken
    rw [tokensFrom_of_tokenAt? htoken]
    exact congrArg _ (ih (i + 2) (by rw [← List.drop_drop, hrest]; rfl))
  | case4 t u rest hjoins ih =>
    obtain ⟨hfirst, hnext⟩ := hget hrest
    have ht : t.IsEntry file := hts t (List.mem_of_getElem? hfirst)
    have htoken := tokenAt?_ofTokens_pair hfirst ht hnext
    rw [if_neg hjoins] at htoken
    rw [tokensFrom_of_tokenAt? htoken, ht.width]
    exact congrArg _ (ih (i + 1) (by rw [← List.drop_drop, hrest]; rfl))

end ofTokens

end TokenStream

/-! ## Lexemes -/

namespace Lexeme

/-- The entry of a lexeme of a text. -/
def token (file : String) (text : List Char) (l : Lexeme) : Token :=
  ⟨l.text, ⟨file, (Text.place text l.offset).1, (Text.place text l.offset).2⟩, 1⟩

/-- A lexeme starts before a character of its text. -/
theorem exists_before {keep : Bool} {text : List Char} {ls : List Lexeme} {l : Lexeme}
    (h : scan keep text = .ok ls) (hl : l ∈ ls) :
    ∃ before rest, text = before ++ rest ∧ rest ≠ [] ∧ l.offset = Text.byteLength before := by
  obtain ⟨before, after, htext, hplaced⟩ := (tiles_of_scan h).slice l hl
  exact ⟨before, l.chars ++ after, htext, List.append_ne_nil_of_left_ne_nil hplaced.form.ne_nil after,
    hplaced.offset⟩

/-- Where a text was scanned, its table is that of the entries of its lexemes. -/
theorem ofLexemes_eq {keep : Bool} {text : List Char} {ls : List Lexeme}
    (h : scan keep text = .ok ls) (file : String) :
    TokenTable.ofLexemes file text ls = .ofTokens file (ls.map (token file text)) := by
  have hsorted : (ls.map (·.offset)).Pairwise (· ≤ ·) :=
    List.pairwise_map.2 ((tiles_of_scan h).pairwise.imp fun hbefore => Nat.le_of_lt hbefore.1)
  unfold TokenTable.ofLexemes TokenTable.ofTokens
  rw [TokenTable.places_eq_map _ hsorted]
  simp [token, Text.place, Function.comp_def]

end Lexeme

/-- The tokens of a text are the paired entries of its lexemes. -/
theorem TokenStream.tokens_ofLexemes {keep : Bool} {text : List Char} {ls : List Lexeme}
    (h : Lexeme.scan keep text = .ok ls) (file : String) :
    (TokenStream.mk (.ofLexemes file text ls) 0).tokens =
      Token.paired (ls.map (Lexeme.token file text)) := by
  unfold tokens
  rw [Lexeme.ofLexemes_eq h]
  refine tokensFrom_ofTokens (fun t ht => ?_) 0 List.drop_zero
  obtain ⟨l, -, rfl⟩ := List.mem_map.1 ht
  exact ⟨rfl, rfl⟩

/-! ## Requests -/

namespace TokenizeRequest

theorem require_of_ne {argument : Argument} {text : String} (h : text ≠ "") :
    require argument (some text) = .ok text := by
  unfold require
  exact if_neg (by simpa using h)

theorem require_empty (argument : Argument) : require argument (some "") = .error (.missing argument) :=
  rfl

/-- A request with a name and a text succeeds if neither is empty and the text can be scanned. -/
theorem tokenize_eq_ok_iff {file source : String} {keep : Bool} {table : TokenTable} :
    tokenize ⟨some file, some source, keep⟩ = .ok table ↔
      file ≠ "" ∧ source ≠ "" ∧
        ∃ ls, Lexeme.scan keep (Text.unifyLineEnds source.toList) = .ok ls ∧
          .ofLexemes file (Text.unifyLineEnds source.toList) ls = table := by
  unfold tokenize
  by_cases hfile : file = ""
  · subst hfile
    simp [require_empty, bind, Except.bind]
  by_cases hsource : source = ""
  · subst hsource
    simp [require_of_ne hfile, require_empty, bind, Except.bind]
  rw [require_of_ne hfile, require_of_ne hsource]
  simp only [bind, Except.bind, ne_eq, hfile, hsource, not_false_eq_true, true_and]
  cases Lexeme.scan keep (Text.unifyLineEnds source.toList) with
  | error offset => simp [throw, throwThe, MonadExceptOf.throw]
  | ok ls => simp [pure, Except.pure]

/-- Only a request with a name and a text succeeds. -/
theorem exists_of_tokenize {request : TokenizeRequest} {table : TokenTable}
    (h : request.tokenize = .ok table) :
    ∃ file source lexemes, request.source = some source ∧
      Lexeme.scan request.keepLineEnds (Text.unifyLineEnds source.toList) = .ok lexemes ∧
      .ofLexemes file (Text.unifyLineEnds source.toList) lexemes = table := by
  obtain ⟨file, source, keep⟩ := request
  cases file with
  | none => cases h
  | some file =>
    cases source with
    | none =>
      unfold tokenize at h
      cases hfile : require .fileName (some file) with
      | error e =>
        rw [hfile] at h
        cases h
      | ok name =>
        rw [hfile] at h
        cases h
    | some source =>
      obtain ⟨-, -, lexemes, hscan, htable⟩ := tokenize_eq_ok_iff.1 h
      exact ⟨file, source, lexemes, rfl, hscan, htable⟩

end TokenizeRequest

end GotoScript
