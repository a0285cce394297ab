import GotoScript.Proofs.Parsing.Readings
import GotoScript.Proofs.Scanning.Readers

/-!
# Progress

The parser never goes back, and whatever it reads takes at least one token:

* `Parsed.Keeps` : what is left stands at the end of the tokens, after a failure as well;
* `Parsed.Advances` : besides, something that was read takes a token. Reading on keeps both;
* `Parser.chain_advances`, `Parser.statement_advances` : expressions and statements advance;
* `TokenStream.exists_ahead_of_suffix` : in a stream, what is left is the stream further on in its table.
-/

namespace GotoScript

namespace Parsed

variable {α β : Type} {ts : List Token} {p : Parsed α ts}

/-- What is left stands at the end of the tokens. -/
def Keeps (p : Parsed α ts) : Prop :=
  p.rest <:+ ts

/-- What is left stands at the end of the tokens, and a value takes at least one of them. -/
structure Advances (p : Parsed α ts) : Prop where
  keeps : p.Keeps
  length_lt : ∀ a rest, p.Gives a rest → rest.length < ts.length

theorem gives_or_fails (p : Parsed α ts) : (∃ a, p.Gives a p.rest) ∨ ∃ e, p.Fails e := by
  cases hr : p.result with
  | ok a => exact .inl ⟨a, hr, rfl⟩
  | error e => exact .inr ⟨e, hr⟩

theorem Gives.rest_andThen {a : α} {rest : List Token} (h : p.Gives a rest)
    (next : α → (rest : List Token) → rest.length ≤ ts.length → Parsed β rest) :
    (p.andThen next).rest = (next a rest h.length_le).rest := by
  obtain ⟨r, left, hle⟩ := p
  have hr : r = .ok a := h.1
  have hleft : left = rest := h.2
  subst hr hleft
  rfl

theorem Fails.rest_andThen {e : CompileError} (h : p.Fails e)
    (next : α → (rest : List Token) → rest.length ≤ ts.length → Parsed β rest) :
    (p.andThen next).rest = p.rest := by
  unfold Parsed.andThen
  rw [show p.result = .error e from h]

/-! ## Reading on -/

theorem Keeps.andThen (h : p.Keeps)
    {next : α → (rest : List Token) → rest.length ≤ ts.length → Parsed β rest}
    (hnext : ∀ a rest hle, p.Gives a rest → (next a rest hle).Keeps) : (p.andThen next).Keeps := by
  unfold Keeps
  obtain ⟨a, hp⟩ | ⟨e, hp⟩ := p.gives_or_fails
  · rw [hp.rest_andThen]
    exact (hnext a p.rest _ hp).trans h
  · rw [hp.rest_andThen]
    exact h

/-- What follows a first part that advances may take nothing. -/
theorem Advances.andThen (h : p.Advances)
    {next : α → (rest : List Token) → rest.length ≤ ts.length → Parsed β rest}
    (hnext : ∀ a rest hle, p.Gives a rest → (next a rest hle).Keeps) : (p.andThen next).Advances := by
  refine ⟨h.keeps.andThen hnext, fun b rest hb => ?_⟩
  obtain ⟨a, left, hle, hp, hb⟩ := (gives_andThen_iff ..).1 hb
  exact Nat.lt_of_le_of_lt hb.length_le (h.length_lt a left hp)

theorem Keeps.map (h : p.Keeps) (f : α → β) : (p.map f).Keeps := h

theorem Advances.map (h : p.Advances) (f : α → β) : (p.map f).Advances := by
  refine ⟨h.keeps, fun b rest hb => ?_⟩
  obtain ⟨a, hp, -⟩ := (gives_map ..).1 hb
  exact h.length_lt a rest hp

/-- Behind a token that was taken, anything advances. -/
theorem Keeps.after (h : p.Keeps) {t : Token} : (p.after (t := t)).Advances :=
  ⟨h.trans (List.suffix_cons t ts), fun _ _ hp => Nat.lt_succ_of_le (Gives.length_le (p := p) hp)⟩

theorem Advances.after (h : p.Advances) {t : Token} : (p.after (t := t)).Advances :=
  h.keeps.after

theorem advances_ok {a : α} {rest : List Token} (h : rest <:+ ts) (hlt : rest.length < ts.length)
    (hle : rest.length ≤ ts.length) : (ok a rest hle : Parsed α ts).Advances :=
  ⟨h, fun _ _ hp => hp.2 ▸ hlt⟩

theorem advances_fail {e : CompileError} {rest : List Token} (h : rest <:+ ts)
    (hle : rest.length ≤ ts.length) : (fail e rest hle : Parsed α ts).Advances :=
  ⟨h, fun a left hp => ((gives_fail e rest hle a left).1 hp).elim⟩

/-- One token is behind, whatever is made of it. -/
theorem advances_tail {r : Except CompileError α} {t : Token} (hle : ts.length ≤ (t :: ts).length) :
    (⟨r, ts, hle⟩ : Parsed α (t :: ts)).Advances :=
  ⟨List.suffix_cons t ts, fun _ _ hp => hp.2 ▸ Nat.lt_succ_self _⟩

theorem advances_ite {c : Prop} [Decidable c] {q : Parsed α ts} (hthen : c → p.Advances)
    (helse : ¬ c → q.Advances) : (if c then p else q).Advances := by
  split
  · next h => exact hthen h
  · next h => exact helse h

end Parsed

namespace Parser

open Parsed Grammar

variable {file : String}

/-! ## Single tokens and entities -/

theorem expect_advances (text : String) (ts : List Token) : (expect file text ts).Advances := by
  cases ts with
  | nil => exact advances_fail (List.suffix_refl []) _
  | cons t ts =>
    unfold expect
    split
    · exact advances_tail _
    · exact advances_fail (List.suffix_refl _) _

theorem word_advances (ts : List Token) : (word file ts).Advances := by
  cases ts with
  | nil => exact advances_fail (List.suffix_refl []) _
  | cons t ts => exact advances_tail _

theorem labelName_advances (ts : List Token) : (labelName file ts).Advances :=
  (expect_advances "@" ts).andThen fun _ rest _ _ => (word_advances rest).keeps.map _

theorem decimals_suffix {whole : String} {ts rest : List Token} {e : Expr}
    (h : decimals whole ts = some (e, rest)) : rest <:+ ts := by
  cases ts with
  | nil => cases h
  | cons t ts =>
    rw [decimals] at h
    split at h
    · cases h
      exact List.suffix_cons t rest
    · cases h

theorem number_keeps (t : Token) (ts : List Token) : (number t ts).Keeps := by
  cases ts with
  | nil => exact List.suffix_refl []
  | cons dot ts =>
    rw [number]
    split
    · split
      · next e left h => exact (decimals_suffix h).trans (List.suffix_cons dot ts)
      · exact List.suffix_cons dot ts
    · exact List.suffix_refl _

theorem entity_advances (ts : List Token) : (entity file ts).Advances := by
  cases ts with
  | nil => exact advances_fail (List.suffix_refl []) _
  | cons t ts =>
    rw [entity]
    refine advances_ite (fun _ => advances_tail _) fun _ => ?_
    refine advances_ite (fun _ => advances_tail _) fun _ => ?_
    refine advances_ite (fun _ => ((word_advances ts).map _).after) fun _ => ?_
    refine advances_ite (fun _ => advances_tail _) fun _ => ?_
    refine advances_ite (fun _ => advances_tail _) fun _ => ?_
    refine advances_ite (fun _ => (number_keeps t ts).after) fun _ => ?_
    refine advances_ite (fun _ => ?_) fun _ => advances_fail (List.suffix_refl _) _
    split
    · next e left h =>
      have hleft := decimals_suffix h
      exact advances_ok (hleft.trans (List.suffix_cons t ts)) (Nat.lt_succ_of_le hleft.length_le) _
    · exact advances_fail (List.suffix_cons t ts) _

/-! ## Expressions -/

-- The recursion of the parser. The two loops that may find nothing, for operators and for suffixes, keep
-- the tokens; everything else advances.
mutual

theorem chain_advances (tiers : List (List String)) (ts : List Token) :
    (chain file tiers ts).Advances := by
  match tiers with
  | [] =>
    rw [chain]
    exact unary_advances ts
  | operators :: tighter =>
    rw [chain]
    exact (chain_advances tighter ts).andThen fun first rest hle _ =>
      (chainRest_keeps operators tighter rest).map _
termination_by 20 * ts.length + tiers.length + 3
decreasing_by
  all_goals
    simp only [List.length_cons, List.length_nil]
    omega

theorem chainRest_keeps (operators : List String) (tighter : List (List String)) (ts : List Token) :
    (chainRest file operators tighter ts).Keeps := by
  match ts with
  | [] =>
    rw [chainRest]
    exact List.suffix_refl []
  | t :: ts =>
    rw [chainRest]
    split
    · refine (Advances.after ?_).keeps
      exact (chain_advances tighter ts).andThen fun e rest hle _ =>
        (chainRest_keeps operators tighter rest).map _
    · exact List.suffix_refl _
termination_by 20 * ts.length + tighter.length + 3
decreasing_by
  all_goals
    simp only [List.length_cons]
    omega

theorem unary_advances (ts : List Token) : (unary file ts).Advances := by
  match ts with
  | [] =>
    rw [unary]
    exact suffixed_advances []
  | t :: ts =>
    rw [unary]
    refine advances_ite (fun _ => ((unary_advances ts).map _).after) fun _ => ?_
    exact advances_ite (fun _ => ((unary_advances ts).map _).after) fun _ => suffixed_advances (t :: ts)
termination_by 20 * ts.length + 2
decreasing_by all_goals simp

theorem suffixed_advances (ts : List Token) : (suffixed file ts).Advances := by
  rw [suffixed]
  exact (primary_advances ts).andThen fun root rest hle _ => suffixes_keeps root rest
termination_by 20 * ts.length + 1
decreasing_by all_goals omega

theorem primary_advances (ts : List Token) : (primary file ts).Advances := by
  match ts with
  | [] =>
    rw [primary]
    exact entity_advances []
  | t :: ts =>
    rw [primary]
    refine advances_ite (fun _ => Advances.after ?_) fun _ => entity_advances (t :: ts)
    exact (chain_advances tiers ts).andThen fun e rest hle _ =>
      (expect_advances ")" rest).keeps.map _
termination_by 20 * ts.length
decreasing_by
  all_goals
    have htiers := tiers_length
    simp only [List.length_cons]
    omega

theorem suffixes_keeps (root : Expr) (ts : List Token) : (suffixes file root ts).Keeps := by
  match ts with
  | [] =>
    rw [suffixes]
    exact List.suffix_refl []
  | t :: ts =>
    rw [suffixes]
    split
    · refine (Advances.after ?_).keeps
      exact (word_advances ts).andThen fun name rest hle _ => suffixes_keeps (.field root name.text) rest
    split
    · refine (Advances.after ?_).keeps
      refine (chain_advances tiers ts).andThen fun key rest hle _ => ?_
      exact (expect_advances "]" rest).keeps.andThen fun _ rest' hle' _ =>
        suffixes_keeps (.index root key) rest'
    split
    · refine (Advances.after ?_).keeps
      exact (arguments_advances ts).andThen fun args rest hle _ => suffixes_keeps (.call root args) rest
    · exact List.suffix_refl _
termination_by 20 * ts.length
decreasing_by
  all_goals
    have htiers := tiers_length
    simp only [List.length_cons]
    omega

theorem arguments_advances (ts : List Token) : (arguments file ts).Advances := by
  rw [arguments]
  refine advances_ite (fun h => ?_) fun _ => ?_
  · obtain ⟨r, hr, -⟩ := Option.map_eq_some_iff.1 h
    obtain ⟨rest, rfl⟩ := List.head?_eq_some_iff.1 hr
    exact advances_tail _
  · exact (chain_advances tiers ts).andThen fun e rest hle _ => (moreArguments_advances rest).keeps.map _
termination_by 20 * ts.length + 10
decreasing_by
  all_goals
    have htiers := tiers_length
    omega

theorem moreArguments_advances (ts : List Token) : (moreArguments file ts).Advances := by
  match ts with
  | [] =>
    rw [moreArguments]
    exact (expect_advances "," []).map _
  | t :: ts =>
    rw [moreArguments]
    refine advances_ite (fun _ => advances_tail _) fun _ => ?_
    refine advances_ite (fun _ => Advances.after ?_) fun _ => (expect_advances "," (t :: ts)).map _
    exact (chain_advances tiers ts).andThen fun e rest hle _ => (moreArguments_advances rest).keeps.map _
termination_by 20 * ts.length
decreasing_by
  all_goals
    have htiers := tiers_length
    simp only [List.length_cons]
    omega

end

theorem expression_advances (ts : List Token) : (expression file ts).Advances :=
  chain_advances tiers ts

/-! ## Statements -/

theorem otherwise_keeps (ts : List Token) : (otherwise file ts).Keeps := by
  cases ts with
  | nil => exact List.suffix_refl []
  | cons t ts =>
    rw [otherwise]
    split
    · have hgoto : skip "goto" ts <:+ t :: ts := (skip_suffix "goto" ts).trans (List.suffix_cons t ts)
      exact (labelName_advances (skip "goto" ts)).keeps.trans hgoto
    · exact List.suffix_refl _

theorem branch_advances (ts : List Token) : (branch file ts).Advances := by
  refine (expression_advances ts).andThen fun condition rest _ _ => ?_
  refine (expect_advances "goto" rest).keeps.andThen fun _ rest _ _ => ?_
  exact (labelName_advances rest).keeps.andThen fun whenTrue rest _ _ => (otherwise_keeps rest).map _

theorem assignment_advances (start : Token) (ts : List Token) : (assignment file start ts).Advances := by
  refine (expression_advances ts).andThen fun target rest _ _ => ?_
  cases rest with
  | nil => exact List.suffix_refl []
  | cons sign rest =>
    dsimp only
    split
    · split
      · exact ((expression_advances rest).map _).after.keeps
      · exact List.suffix_cons sign rest
    · exact List.suffix_refl _

theorem action_advances (start : Token) (ts : List Token) : (action file start ts).Advances := by
  rw [action]
  refine advances_ite (fun _ => (labelName_advances (start :: ts)).map _) fun _ => ?_
  refine advances_ite (fun _ => (branch_advances ts).after) fun _ => ?_
  refine advances_ite (fun _ => ((labelName_advances ts).map _).after) fun _ => ?_
  exact advances_ite (fun _ => ((expression_advances ts).map _).after) fun _ =>
    assignment_advances start (start :: ts)

theorem statement_advances (ts : List Token) : (statement file ts).Advances := by
  cases ts with
  | nil => exact advances_fail (List.suffix_refl []) _
  | cons start ts => exact (action_advances start ts).map _

end Parser

/-! ## Token tables -/

namespace TokenStream

/-- A token stands for at least one entry of the table. -/
theorem width_pos_of_tokenAt? {t : TokenTable} {index : Nat} {token : Token}
    (h : tokenAt? t index = some token) : 0 < token.width.toNat := by
  rcases tokenAt?_width h with hw | hw <;> rw [hw] <;> decide

theorem length_tokensFrom_le (t : TokenTable) (index : Nat) :
    (tokensFrom t index).length ≤ t.size - index := by
  cases h : tokenAt? t index with
  | none =>
    rw [tokensFrom_of_tokenAt?_eq_none h]
    exact Nat.zero_le _
  | some token =>
    have hpos := width_pos_of_tokenAt? h
    have hlt := tokenAt?_eq_some_lt h
    have hlater := length_tokensFrom_le t (index + token.width.toNat)
    rw [tokensFrom_of_tokenAt? h, List.length_cons]
    omega
termination_by t.size - index

theorem exists_of_suffix_tokensFrom (t : TokenTable) (index : Nat) {rest : List Token}
    (h : rest <:+ tokensFrom t index) :
    ∃ later, rest = tokensFrom t later ∧ index ≤ later ∧ later ≤ max index t.size ∧
      (rest.length < (tokensFrom t index).length → index < later) := by
  have here : tokensFrom t index = tokensFrom t index ∧ index ≤ index ∧ index ≤ max index t.size ∧
      ((tokensFrom t index).length < (tokensFrom t index).length → index < index) :=
    ⟨rfl, Nat.le_refl _, Nat.le_max_left _ _, fun hlt => absurd hlt (Nat.lt_irrefl _)⟩
  cases htoken : tokenAt? t index with
  | none =>
    rw [tokensFrom_of_tokenAt?_eq_none htoken, List.suffix_nil] at h
    rw [h, ← tokensFrom_of_tokenAt?_eq_none htoken]
    exact ⟨index, here⟩
  | some token =>
    have hpos := width_pos_of_tokenAt? htoken
    have hlt := tokenAt?_eq_some_lt htoken
    have hstop := add_width_le_of_tokenAt? htoken
    have htokens := tokensFrom_of_tokenAt? htoken
    rw [htokens, List.suffix_cons_iff] at h
    obtain h | h := h
    · rw [h, ← htokens]
      exact ⟨index, here⟩
    · obtain ⟨later, hrest, hle, hmax, -⟩ :=
        exists_of_suffix_tokensFrom t (index + token.width.toNat) h
      exact ⟨later, hrest, by omega, by omega, fun _ => by omega⟩
termination_by t.size - index

/-- The stream `later` goes on from `s`, further on in the same table. -/
structure Ahead (s later : TokenStream) : Prop where
  table : later.table = s.table
  index_le : s.index ≤ later.index
  le_max : later.index ≤ max s.index s.table.size

/-- Tokens at the end of those to come are what the stream has to give further on. -/
theorem exists_ahead_of_suffix {s : TokenStream} {rest : List Token} (h : rest <:+ s.tokens) :
    ∃ later, s.Ahead later ∧ rest = later.tokens ∧
      (rest.length < s.tokens.length → s.index < later.index) := by
  obtain ⟨index, hrest, hle, hmax, hlt⟩ := exists_of_suffix_tokensFrom s.table s.index h
  exact ⟨⟨s.table, index⟩, ⟨rfl, hle, hmax⟩, hrest, hlt⟩

end TokenStream

end GotoScript
