import GotoScript.Proofs.Parsing.Positions

/-!
# Two readings of the same tokens

The parser looks at the texts of tokens only, and a line end stops it where the end of the tokens does.
So it reads the same tokens alike at other places and where a line end comes after them, up to the same
failure:

* `reread g tail ts` : the tokens at other places, with `tail` after them;
* `CompileError.Returns` : an error at a token stays with that token, and where the tokens ran out the
  first token of `tail` is unexpected;
* `Parsed.Tracks` : one reading tracks another, with a rule for each way to read on;
* `Parser.chain_tracks`, `Parser.action_tracks` : expressions and statements are tracked;
* `Parser.program_returns` : a program that fails, fails in the other reading.
-/

namespace GotoScript

/-! ## The same tokens elsewhere -/

/-- The tokens at other places, with `tail` after them. -/
def reread (g : Position → Position) (tail ts : List Token) : List Token :=
  ts.map (Token.moved g) ++ tail

section Returns

variable (g : Position → Position) (tail : List Token)

@[simp]
theorem reread_nil : reread g tail [] = tail := rfl

@[simp]
theorem reread_cons (t : Token) (ts : List Token) :
    reread g tail (t :: ts) = t.moved g :: reread g tail ts := rfl

/-- How an error in the tokens `ts` returns when they are read at other places before `tail`. -/
inductive CompileError.Returns (ts : List Token) : CompileError → CompileError → Prop where
  | token {kind : Kind} {message : String} {t : Token} (hkind : kind ≠ .unexpectedEnd) (ht : t ∈ ts) :
    Returns ts (.atToken kind message t) (.atToken kind message (t.moved g))
  | ended {file message : String} (htail : tail = []) :
    Returns ts (.endOfFile file message) (.endOfFile file message)
  | stopped {file message message' : String} {n : Token} {more : List Token} (htail : tail = n :: more) :
    Returns ts (.endOfFile file message) (.atToken .unexpectedToken message' n)

end Returns

variable {g : Position → Position} {tail : List Token}

theorem CompileError.Returns.mono {ts us : List Token} {e e' : CompileError}
    (h : Returns g tail ts e e') (hsub : ts ⊆ us) : Returns g tail us e e' := by
  cases h with
  | token hkind ht => exact .token hkind (hsub ht)
  | ended htail => exact .ended htail
  | stopped htail => exact .stopped htail

/-! ## Readings -/

namespace Parsed

variable {α β : Type} {ts us : List Token}

/-- The outcome is the error `e`. -/
def Fails (p : Parsed α ts) (e : CompileError) : Prop :=
  p.result = .error e

@[simp]
theorem fails_map (f : α → β) (p : Parsed α ts) (e : CompileError) :
    (p.map f).Fails e ↔ p.Fails e := by
  unfold Fails Parsed.map
  cases p.result <;> simp [Except.map]

theorem Fails.andThen {p : Parsed α ts} {e : CompileError} (h : p.Fails e)
    (next : α → (rest : List Token) → rest.length ≤ ts.length → Parsed β rest) :
    (p.andThen next).Fails e := by
  unfold Fails Parsed.andThen
  rw [show p.result = .error e from h]

theorem Gives.andThen_fails_iff {p : Parsed α ts} {a : α} {rest : List Token} (h : p.Gives a rest)
    {next : α → (rest : List Token) → rest.length ≤ ts.length → Parsed β rest} {e : CompileError} :
    (p.andThen next).Fails e ↔ (next a rest h.length_le).Fails e := by
  obtain ⟨r, left, hle⟩ := p
  have hr : r = .ok a := h.1
  have hleft : left = rest := h.2
  subst hr hleft
  rfl

/-- The reading `q` tracks `p`: it gives the same up to `m` and leaves the same tokens, or it fails with
the same error. -/
inductive Tracks (g : Position → Position) (tail : List Token) (m : α → α) (p : Parsed α ts)
    (q : Parsed α us) : Prop where
  | gives (a : α) (rest : List Token) (hp : p.Gives a rest) (hrest : rest <:+ ts)
    (hq : q.Gives (m a) (reread g tail rest))
  | fails (e e' : CompileError) (hp : p.Fails e) (hq : q.Fails e') (he : e.Returns g tail ts e')

variable {m : α → α} {m' : β → β} {p : Parsed α ts} {q : Parsed α us}

theorem Tracks.andThen {next : α → (rest : List Token) → rest.length ≤ ts.length → Parsed β rest}
    {next' : α → (rest : List Token) → rest.length ≤ us.length → Parsed β rest}
    (h : Tracks g tail m p q)
    (hnext : ∀ a rest hle hle',
      Tracks g tail m' (next a rest hle) (next' (m a) (reread g tail rest) hle')) :
    Tracks g tail m' (p.andThen next) (q.andThen next') := by
  cases h with
  | gives a rest hp hrest hq =>
    cases hnext a rest hp.length_le hq.length_le with
    | gives b rest' hp' hrest' hq' =>
      refine .gives b rest' ?_ (hrest'.trans hrest) ?_
      · exact (gives_andThen_iff ..).2 ⟨a, rest, _, hp, hp'⟩
      · exact (gives_andThen_iff ..).2 ⟨m a, _, _, hq, hq'⟩
    | fails e e' hp' hq' he =>
      exact .fails e e' (hp.andThen_fails_iff.2 hp') (hq.andThen_fails_iff.2 hq')
        (he.mono hrest.subset)
  | fails e e' hp hq he => exact .fails e e' (hp.andThen next) (hq.andThen next') he

theorem Tracks.map {f f' : α → β} (h : Tracks g tail m p q) (hf : ∀ a, f' (m a) = m' (f a)) :
    Tracks g tail m' (p.map f) (q.map f') := by
  cases h with
  | gives a rest hp hrest hq =>
    exact .gives (f a) rest ((gives_map ..).2 ⟨a, hp, rfl⟩) hrest ((gives_map ..).2 ⟨m a, hq, hf a⟩)
  | fails e e' hp hq he => exact .fails e e' ((fails_map ..).2 hp) ((fails_map ..).2 hq) he

/-- A reading is tracked from an earlier place as well. -/
theorem Tracks.within {earlier earlier' : List Token} (h : Tracks g tail m p q)
    (hsuffix : ts <:+ earlier) (hle : ts.length ≤ earlier.length) (hle' : us.length ≤ earlier'.length) :
    Tracks g tail m (p.within hle) (q.within hle') := by
  cases h with
  | gives a rest hp hrest hq => exact .gives a rest hp (hrest.trans hsuffix) hq
  | fails e e' hp hq he => exact .fails e e' hp hq (he.mono hsuffix.subset)

theorem Tracks.after {t t' : Token} (h : Tracks g tail m p q) :
    Tracks g tail m (p.after (t := t)) (q.after (t := t')) :=
  h.within (List.suffix_cons t ts) _ _

theorem Tracks.of_gives {a : α} {rest : List Token} (h : Tracks g tail m p q) (hp : p.Gives a rest) :
    rest <:+ ts ∧ q.Gives (m a) (reread g tail rest) := by
  cases h with
  | gives b left hp' hleft hq =>
    obtain rfl : b = a := Except.ok.inj (hp'.1.symm.trans hp.1)
    obtain rfl : left = rest := hp'.2.symm.trans hp.2
    exact ⟨hleft, hq⟩
  | fails e e' hp' hq he => cases hp'.symm.trans hp.1

theorem Tracks.of_fails {e : CompileError} (h : Tracks g tail m p q) (hp : p.Fails e) :
    ∃ e', q.Fails e' ∧ e.Returns g tail ts e' := by
  cases h with
  | gives b left hp' hleft hq => cases hp'.1.symm.trans hp
  | fails e₀ e' hp' hq he =>
    obtain rfl : e₀ = e := Except.error.inj (hp'.symm.trans hp)
    exact ⟨e', hq, he⟩

/-- Both readings go the same way. -/
theorem Tracks.ite {c c' : Prop} [Decidable c] [Decidable c'] {p₁ p₂ : Parsed α ts}
    {q₁ q₂ : Parsed α us} (hc : c ↔ c') (hthen : c → Tracks g tail m p₁ q₁)
    (helse : ¬ c → Tracks g tail m p₂ q₂) :
    Tracks g tail m (if c then p₁ else p₂) (if c' then q₁ else q₂) := by
  by_cases h : c
  · rw [if_pos h, if_pos (hc.1 h)]
    exact hthen h
  · rw [if_neg h, if_neg (mt hc.2 h)]
    exact helse h

/-- Both readings take the same step and leave the rest. -/
theorem Tracks.ok {a b : α} {rest : List Token} (hrest : rest <:+ ts) (hb : b = m a)
    (hle : rest.length ≤ ts.length) (hle' : (reread g tail rest).length ≤ us.length) :
    Tracks g tail m (ok a rest hle : Parsed α ts) (ok b (reread g tail rest) hle' : Parsed α us) :=
  .gives a rest ⟨rfl, rfl⟩ hrest ⟨congrArg Except.ok hb, rfl⟩

/-- Both readings fail at the same token. -/
theorem Tracks.fail {kind : CompileError.Kind} {message : String} {t : Token} {left left' : List Token}
    (hkind : kind ≠ .unexpectedEnd) (ht : t ∈ ts) (hle : left.length ≤ ts.length)
    (hle' : left'.length ≤ us.length) :
    Tracks g tail m (fail (.atToken kind message t) left hle : Parsed α ts)
      (fail (.atToken kind message (t.moved g)) left' hle' : Parsed α us) :=
  .fails _ _ rfl rfl (.token hkind ht)

end Parsed

namespace Parser

open Parsed Grammar

variable {file : String}

/-! ## Single tokens -/

theorem exists_of_not_noneAhead {text : String} {ts : List Token} (h : ¬ NoneAhead [text] ts) :
    ∃ t rest, ts = t :: rest ∧ t.text = text := by
  cases ts with
  | nil => exact absurd (noneAhead_nil _) h
  | cons t rest => exact ⟨t, rest, rfl, by simpa using h⟩

theorem expect_fails {text : String} {t : Token} (h : t.text ≠ text) (ts : List Token) :
    (expect file text (t :: ts)).Fails
      (.atToken .unexpectedToken ("expected '" ++ text ++ "' but found '" ++ t.shown ++ "'") t) := by
  unfold Fails expect CompileError.requireText
  rw [List.head?_cons]
  dsimp only
  rw [if_neg h]
  rfl

theorem word_fails {t : Token} (h : ¬ t.isWord) (ts : List Token) :
    (word file (t :: ts)).Fails
      (.atToken .unexpectedToken ("expected word but found '" ++ t.shown ++ "'") t) := by
  unfold Fails word CompileError.requireWord
  exact if_neg h

section

variable (htail : AtLineEnd tail)
include htail

/-- The first token of the tail, if there is one, reads as a line end. -/
theorem text_of_atLineEnd {n : Token} {more : List Token} (h : tail = n :: more) :
    n.text = Token.newline := by
  subst h
  exact of_decide_eq_true (htail n rfl)

/-- What neither comes next nor is a line end does not come next in the other reading. -/
theorem noneAhead_reread {texts : List String} (hno : Token.newline ∉ texts) {ts : List Token}
    (h : NoneAhead texts ts) : NoneAhead texts (reread g tail ts) := by
  cases ts with
  | nil => exact htail.noneAhead texts hno
  | cons t ts => exact (noneAhead_cons ..).2 ((noneAhead_cons texts t ts).1 h)

theorem head?_text_reread {text : String} (htext : text ≠ Token.newline) (ts : List Token) :
    ts.head?.map (·.text) = some text ↔ (reread g tail ts).head?.map (·.text) = some text := by
  cases ts with
  | cons t ts => exact Iff.rfl
  | nil =>
    refine iff_of_false (by simp) fun h => htext ?_
    obtain ⟨n, hn, rfl⟩ := Option.map_eq_some_iff.1 h
    exact of_decide_eq_true (htail n hn)

theorem expect_tracks {text : String} (htext : text ≠ Token.newline) (ts : List Token) :
    Tracks g tail (Token.moved g) (expect file text ts) (expect file text (reread g tail ts)) := by
  cases ts with
  | nil =>
    cases ht : tail with
    | nil => exact .fails _ _ rfl rfl (.ended rfl)
    | cons n more =>
      have hn : n.text ≠ text := text_of_atLineEnd htail ht ▸ htext.symm
      exact .fails _ _ rfl (expect_fails hn more) (.stopped rfl)
  | cons t ts =>
    by_cases ht : t.text = text
    · exact .gives t ts (expect_gives_iff.2 ⟨rfl, ht⟩) (List.suffix_cons t ts)
        (expect_gives_iff.2 ⟨rfl, ht⟩)
    · exact .fails _ _ (expect_fails ht ts) (expect_fails (t := t.moved g) ht _)
        (.token (by decide) (.head _))

theorem word_tracks (ts : List Token) :
    Tracks g tail (Token.moved g) (word file ts) (word file (reread g tail ts)) := by
  cases ts with
  | nil =>
    cases ht : tail with
    | nil => exact .fails _ _ rfl rfl (.ended rfl)
    | cons n more =>
      have hn : ¬ n.isWord := by
        rw [Token.isWord, firstChar?_of_text (text_of_atLineEnd htail ht)]
        decide
      exact .fails _ _ rfl (word_fails hn more) (.stopped rfl)
  | cons t ts =>
    by_cases ht : t.isWord
    · exact .gives t ts (word_gives_iff.2 ⟨rfl, ht⟩) (List.suffix_cons t ts)
        (word_gives_iff.2 ⟨rfl, ht⟩)
    · exact .fails _ _ (word_fails ht ts) (word_fails (t := t.moved g) ht _)
        (.token (by decide) (.head _))

theorem labelName_tracks (ts : List Token) :
    Tracks g tail id (labelName file ts) (labelName file (reread g tail ts)) := by
  unfold labelName
  refine (expect_tracks htail (by decide) ts).andThen fun sign rest _ _ => ?_
  exact (word_tracks htail rest).map fun _ => rfl

/-! ## Entities -/

/-- Digits after a point are found in both readings, or in none. -/
theorem decimals_reread (whole : String) (ts : List Token) :
    decimals whole (reread g tail ts) =
      (decimals whole ts).map fun found => (found.1, reread g tail found.2) := by
  cases ts with
  | nil =>
    cases ht : tail with
    | nil => rfl
    | cons n more =>
      have hn : ¬ Literal.isDigits n.text := by
        rw [text_of_atLineEnd htail ht]
        decide
      exact if_neg hn
  | cons t ts =>
    unfold decimals
    dsimp only [reread_cons]
    by_cases ht : Literal.isDigits t.text
    · rw [if_pos ht, if_pos (show Literal.isDigits (t.moved g).text from ht)]
      rfl
    · rw [if_neg ht, if_neg (show ¬ Literal.isDigits (t.moved g).text from ht)]
      rfl

end

/-- An integer literal reads alike at every place. -/
theorem int_tracks {t : Token} {ts us left : List Token} (hleft : left <:+ ts)
    (hle : left.length ≤ (t :: ts).length) (hle' : (reread g tail left).length ≤ us.length) :
    Tracks g tail (Expr.moved g) (⟨Literal.int t, left, hle⟩ : Parsed Expr (t :: ts))
      (⟨Literal.int (t.moved g), reread g tail left, hle'⟩ : Parsed Expr us) := by
  by_cases hn : Number.natOfDigits t.text.toList < Nat.pow 2 63
  · refine .gives _ left ⟨if_pos hn, rfl⟩ (hleft.trans (List.suffix_cons t ts)) ⟨if_pos hn, rfl⟩
  · exact .fails _ _ (if_neg hn) (if_neg hn) (.token (by decide) (.head _))

/-- A text literal reads alike at every place. -/
theorem text_tracks {t : Token} {ts : List Token} (hle : ts.length ≤ (t :: ts).length)
    (hle' : (reread g tail ts).length ≤ (reread g tail (t :: ts)).length) :
    Tracks g tail (Expr.moved g)
      (⟨(Literal.text t).map .text, ts, hle⟩ : Parsed Expr (t :: ts))
      (⟨(Literal.text (t.moved g)).map .text, reread g tail ts, hle'⟩ :
        Parsed Expr (reread g tail (t :: ts))) := by
  have htext (u : Token) (hu : u.text = t.text) : Literal.text u =
      ((Literal.unescape (Literal.unquote t.text.toList)).map String.ofList).mapError
        fun fault => .atToken .invalidEscape fault.message u := by
    unfold Literal.text
    rw [hu]
    cases Literal.unescape (Literal.unquote t.text.toList) <;> rfl
  rw [htext t rfl, htext (t.moved g) rfl]
  cases Literal.unescape (Literal.unquote t.text.toList) with
  | error fault => exact .fails _ _ rfl rfl (.token (by decide) (.head _))
  | ok cs => exact .gives (.text (String.ofList cs)) ts ⟨rfl, rfl⟩ (List.suffix_cons t ts) ⟨rfl, rfl⟩

theorem number_of_noneAhead {t : Token} {ts : List Token} (h : NoneAhead ["."] ts) :
    number t ts = ⟨Literal.int t, ts, Nat.le_refl _⟩ := by
  cases ts with
  | nil => rfl
  | cons point ts =>
    rw [noneAhead_cons, List.mem_singleton] at h
    exact if_neg h

theorem number_point_fails {t point : Token} {ts : List Token} (hp : point.text = ".")
    (h : decimals t.text ts = none) :
    (number t (point :: ts)).Fails (.atToken .unexpectedToken "unexpected '.'" point) := by
  rw [number, if_pos hp]
  split
  · next hsome =>
    rw [h] at hsome
    cases hsome
  · rfl

theorem entity_point_fails {t : Token} {ts : List Token} (ht : t.text = ".")
    (h : decimals "0" ts = none) : (entity file (t :: ts)).Fails (.unexpected t) := by
  have hc : t.firstChar? = some '.' := firstChar?_of_text ht
  have hword : t.isWord = false := by
    rw [Token.isWord, hc]
    rfl
  have hdigits : Literal.isDigits "." = false := by decide
  simp only [entity, ht, hc, hword, hdigits]
  rw [if_neg (by decide), if_neg (by decide), if_neg (by decide), if_neg (by decide),
    if_neg (by decide), if_neg (by decide), if_pos trivial]
  split
  · next hsome =>
    rw [h] at hsome
    cases hsome
  · rfl

/-- A line end starts no entity. -/
theorem entity_newline_fails {n : Token} {ts : List Token} (hn : n.text = Token.newline) :
    (entity file (n :: ts)).Fails (.unexpected n) := by
  have hc : n.firstChar? = some '\n' := firstChar?_of_text hn
  have hword : n.isWord = false := by
    rw [Token.isWord, hc]
    rfl
  have hdigits : Literal.isDigits Token.newline = false := by decide
  simp only [entity, hn, hc, hword, hdigits]
  rw [if_neg (by decide), if_neg (by decide), if_neg (by decide), if_neg (by decide),
    if_neg (by decide), if_neg (by decide), if_neg (by decide)]
  rfl

section

variable (htail : AtLineEnd tail)
include htail

theorem number_tracks (t : Token) (ts : List Token) :
    Tracks g tail (Expr.moved g) ((number t ts).after (t := t))
      ((number (t.moved g) (reread g tail ts)).after (t := t.moved g)) := by
  by_cases hn : NoneAhead ["."] ts
  · have hn' : NoneAhead ["."] (reread g tail ts) := noneAhead_reread htail (by decide) hn
    rw [number_of_noneAhead hn, number_of_noneAhead hn']
    exact int_tracks (List.suffix_refl ts) _ _
  · obtain ⟨point, ts, rfl, hp⟩ := exists_of_not_noneAhead hn
    cases hd : decimals t.text ts with
    | none =>
      have hd' : decimals (t.moved g).text (reread g tail ts) = none :=
        (decimals_reread htail t.text ts).trans (by rw [hd]; rfl)
      exact .fails _ _ (number_point_fails hp hd)
        (number_point_fails (show (point.moved g).text = "." from hp) hd')
        (.token (by decide) (.tail _ (.head _)))
    | some found =>
      obtain ⟨e, rest⟩ := found
      obtain ⟨d, rfl, hdigits, rfl⟩ := decimals_eq_some_iff.1 hd
      refine .gives (Literal.float t.text d.text) rest ?_ ?_ ?_
      · exact number_gives_iff.2 (.inr ⟨point, d, rfl, hp, hdigits, rfl⟩)
      · exact ⟨[t, point, d], rfl⟩
      · exact number_gives_iff.2 (.inr ⟨point.moved g, d.moved g, rfl, hp, hdigits, rfl⟩)

theorem entity_point_tracks {t : Token} (ht : t.text = ".") (ts : List Token) :
    Tracks g tail (Expr.moved g) (entity file (t :: ts)) (entity file (reread g tail (t :: ts))) := by
  cases hd : decimals "0" ts with
  | none =>
    have hd' : decimals "0" (reread g tail ts) = none :=
      (decimals_reread htail "0" ts).trans (by rw [hd]; rfl)
    exact .fails _ _ (entity_point_fails ht hd) (entity_point_fails (t := t.moved g) ht hd')
      (.token (by decide) (.head _))
  | some found =>
    obtain ⟨e, rest⟩ := found
    obtain ⟨d, rfl, hdigits, rfl⟩ := decimals_eq_some_iff.1 hd
    refine .gives (Literal.float "0" d.text) rest ?_ ⟨[t, d], rfl⟩ ?_
    · exact (entity_point_gives_iff ht).2 ⟨d, rfl, hdigits, rfl⟩
    · exact (entity_point_gives_iff (t := t.moved g) ht).2 ⟨d.moved g, rfl, hdigits, rfl⟩

theorem entity_tracks (ts : List Token) :
    Tracks g tail (Expr.moved g) (entity file ts) (entity file (reread g tail ts)) := by
  cases ts with
  | nil =>
    cases ht : tail with
    | nil => exact .fails _ _ rfl rfl (.ended rfl)
    | cons n more =>
      exact .fails _ _ rfl (entity_newline_fails (text_of_atLineEnd htail ht)) (.stopped rfl)
  | cons t ts =>
    by_cases hpoint : t.text = "."
    · exact entity_point_tracks htail hpoint ts
    have hrest := List.suffix_cons t ts
    rw [reread_cons, entity, entity]
    refine .ite Iff.rfl (fun _ => .ok hrest rfl _ _) fun _ => ?_
    refine .ite Iff.rfl (fun _ => .ok hrest rfl _ _) fun _ => ?_
    refine .ite Iff.rfl (fun _ => ?_) fun _ => ?_
    · refine ((word_tracks htail ts).map ?_).after
      exact fun _ => rfl
    refine .ite Iff.rfl (fun _ => text_tracks _ _) fun _ => ?_
    refine .ite Iff.rfl (fun _ => .ok hrest ?_ _ _) fun _ => ?_
    · by_cases hroot : t.text = Expr.rootWord
      · rw [if_pos hroot, if_pos (show (t.moved g).text = Expr.rootWord from hroot)]
        rfl
      · rw [if_neg hroot, if_neg (show ¬ (t.moved g).text = Expr.rootWord from hroot)]
        rfl
    refine .ite Iff.rfl (fun _ => number_tracks htail t ts) fun _ => ?_
    refine .ite Iff.rfl (fun h => absurd h hpoint) fun _ => ?_
    exact .fail (by decide) (.head _) _ _

end

/-! ## Expressions -/

/-- An expression of a chain and the operators after it, at other places. -/
def movedLinks (g : Position → Position) (more : List (Token × Expr)) : List (Token × Expr) :=
  more.map fun link => (link.1.moved g, link.2.moved g)

theorem chainOf_moved (first : Expr) (more : List (Token × Expr)) :
    chainOf (first.moved g) (movedLinks g more) = (chainOf first more).moved g := by
  cases more with
  | nil => rfl
  | cons link more =>
    simp [chainOf, movedLinks, Expr.moved, Expr.movedAll_eq_map, Expr.movedAll, Function.comp_def]

theorem unary_of_noneAhead {ts : List Token} (h : NoneAhead ["not", "-"] ts) :
    unary file ts = suffixed file ts := by
  cases ts with
  | nil => rw [unary]
  | cons t ts =>
    simp only [noneAhead_cons, List.mem_cons, List.not_mem_nil, or_false, not_or] at h
    rw [unary, if_neg h.1, if_neg h.2]

theorem primary_of_noneAhead {ts : List Token} (h : NoneAhead ["("] ts) :
    primary file ts = entity file ts := by
  cases ts with
  | nil => rw [primary]
  | cons t ts =>
    rw [noneAhead_cons, List.mem_singleton] at h
    rw [primary, if_neg h]

theorem moreArguments_of_noneAhead {ts : List Token} (h : NoneAhead [")", ","] ts) :
    moreArguments file ts = (expect file "," ts).map fun _ => [] := by
  cases ts with
  | nil => rw [moreArguments]
  | cons t ts =>
    simp only [noneAhead_cons, List.mem_cons, List.not_mem_nil, or_false, not_or] at h
    rw [moreArguments, if_neg h.1, if_neg h.2]

-- The recursion of the parser: at the end of the tokens one reading stops because nothing is left and the
-- other because a line end is no part of an expression. Everywhere else they take the same branch.
mutual

theorem chain_tracks (htail : AtLineEnd tail) (tiers : List (List String))
    (htiers : ∀ ops ∈ tiers, Token.newline ∉ ops) (ts : List Token) :
    Tracks g tail (Expr.moved g) (chain file tiers ts) (chain file tiers (reread g tail ts)) := by
  match tiers with
  | [] =>
    rw [chain, chain]
    exact unary_tracks htail ts
  | operators :: tighter =>
    obtain ⟨hoperators, htighter⟩ := List.forall_mem_cons.1 htiers
    rw [chain, chain]
    refine (chain_tracks htail tighter htighter ts).andThen fun first rest hle _ => ?_
    refine (chainRest_tracks htail operators tighter hoperators htighter rest).map ?_
    exact fun more => chainOf_moved first more
termination_by 20 * ts.length + tiers.length + 3
decreasing_by
  all_goals
    simp only [List.length_cons, List.length_nil]
    omega

theorem chainRest_tracks (htail : AtLineEnd tail) (operators : List String) (tighter : List (List String))
    (hoperators : Token.newline ∉ operators) (htighter : ∀ ops ∈ tighter, Token.newline ∉ ops)
    (ts : List Token) :
    Tracks g tail (movedLinks g) (chainRest file operators tighter ts)
      (chainRest file operators tighter (reread g tail ts)) := by
  match ts with
  | [] =>
    refine .gives [] [] (chainRest_gives_iff.2 (.inl ⟨rfl, rfl, noneAhead_nil _⟩)) (List.suffix_refl _) ?_
    exact chainRest_gives_iff.2 (.inl ⟨rfl, rfl, htail.noneAhead _ hoperators⟩)
  | t :: ts =>
    rw [reread_cons, chainRest, chainRest]
    refine .ite Iff.rfl (fun _ => ?_) fun _ => .ok (List.suffix_refl _) rfl _ _
    refine Tracks.after ?_
    refine (chain_tracks htail tighter htighter ts).andThen fun e rest hle _ => ?_
    refine (chainRest_tracks htail operators tighter hoperators htighter rest).map ?_
    exact fun more => rfl
termination_by 20 * ts.length + tighter.length + 3
decreasing_by
  all_goals
    simp only [List.length_cons]
    omega

theorem unary_tracks (htail : AtLineEnd tail) (ts : List Token) :
    Tracks g tail (Expr.moved g) (unary file ts) (unary file (reread g tail ts)) := by
  match ts with
  | [] =>
    rw [unary_of_noneAhead (noneAhead_nil _),
      unary_of_noneAhead (noneAhead_reread htail (by decide) (noneAhead_nil _))]
    exact suffixed_tracks htail []
  | t :: ts =>
    rw [reread_cons, unary, unary]
    refine .ite Iff.rfl (fun _ => ?_) fun _ => ?_
    · refine ((unary_tracks htail ts).map ?_).after
      exact fun _ => rfl
    refine .ite Iff.rfl (fun _ => ?_) fun _ => ?_
    · refine ((unary_tracks htail ts).map ?_).after
      exact fun _ => rfl
    exact suffixed_tracks htail (t :: ts)
termination_by 20 * ts.length + 2
decreasing_by all_goals simp

theorem suffixed_tracks (htail : AtLineEnd tail) (ts : List Token) :
    Tracks g tail (Expr.moved g) (suffixed file ts) (suffixed file (reread g tail ts)) := by
  rw [suffixed, suffixed]
  exact (primary_tracks htail ts).andThen fun root rest hle _ => suffixes_tracks htail root rest
termination_by 20 * ts.length + 1
decreasing_by all_goals omega

theorem primary_tracks (htail : AtLineEnd tail) (ts : List Token) :
    Tracks g tail (Expr.moved g) (primary file ts) (primary file (reread g tail ts)) := by
  match ts with
  | [] =>
    rw [primary_of_noneAhead (noneAhead_nil _),
      primary_of_noneAhead (noneAhead_reread htail (by decide) (noneAhead_nil _))]
    exact entity_tracks htail []
  | t :: ts =>
    rw [reread_cons, primary, primary]
    refine .ite Iff.rfl (fun _ => ?_) fun _ => entity_tracks htail (t :: ts)
    refine Tracks.after ?_
    refine (chain_tracks htail tiers (by decide) ts).andThen fun e rest hle _ => ?_
    refine (expect_tracks htail (by decide) rest).map ?_
    exact fun _ => rfl
termination_by 20 * ts.length
decreasing_by
  all_goals
    have htiers := tiers_length
    simp only [List.length_cons]
    omega

theorem suffixes_tracks (htail : AtLineEnd tail) (root : Expr) (ts : List Token) :
    Tracks g tail (Expr.moved g) (suffixes file root ts)
      (suffixes file (root.moved g) (reread g tail ts)) := by
  match ts with
  | [] =>
    refine .gives root [] ((suffixes_gives_iff_of_noneAhead (noneAhead_nil _)).2 ⟨rfl, rfl⟩)
      (List.suffix_refl _) ?_
    exact (suffixes_gives_iff_of_noneAhead (htail.noneAhead _ (by decide))).2 ⟨rfl, rfl⟩
  | t :: ts =>
    rw [reread_cons, suffixes, suffixes]
    refine .ite Iff.rfl (fun _ => ?_) fun _ => ?_
    · refine Tracks.after ?_
      exact (word_tracks htail ts).andThen fun name rest hle _ =>
        suffixes_tracks htail (.field root name.text) rest
    refine .ite Iff.rfl (fun _ => ?_) fun _ => ?_
    · refine Tracks.after ?_
      refine (chain_tracks htail tiers (by decide) ts).andThen fun key rest hle _ => ?_
      exact (expect_tracks htail (by decide) rest).andThen fun _ rest' hle' _ =>
        suffixes_tracks htail (.index root key) rest'
    refine .ite Iff.rfl (fun _ => ?_) fun _ => .ok (List.suffix_refl _) rfl _ _
    refine Tracks.after ?_
    refine (arguments_tracks htail ts).andThen fun args rest hle _ => ?_
    exact suffixes_tracks htail (.call root args) rest
termination_by 20 * ts.length
decreasing_by
  all_goals
    have htiers := tiers_length
    simp only [List.length_cons]
    omega

theorem arguments_tracks (htail : AtLineEnd tail) (ts : List Token) :
    Tracks g tail (Expr.movedAll g) (arguments file ts) (arguments file (reread g tail ts)) := by
  rw [arguments, arguments]
  refine .ite (head?_text_reread htail (by decide) ts) (fun h => ?_) fun _ => ?_
  · obtain ⟨r, hr, -⟩ := Option.map_eq_some_iff.1 h
    obtain ⟨rest, rfl⟩ := List.head?_eq_some_iff.1 hr
    exact .ok (List.suffix_cons r rest) rfl _ _
  refine (chain_tracks htail tiers (by decide) ts).andThen fun e rest hle _ => ?_
  refine (moreArguments_tracks htail rest).map ?_
  exact fun _ => rfl
termination_by 20 * ts.length + 10
decreasing_by
  all_goals
    have htiers := tiers_length
    omega

theorem moreArguments_tracks (htail : AtLineEnd tail) (ts : List Token) :
    Tracks g tail (Expr.movedAll g) (moreArguments file ts)
      (moreArguments file (reread g tail ts)) := by
  match ts with
  | [] =>
    rw [moreArguments_of_noneAhead (noneAhead_nil _),
      moreArguments_of_noneAhead (noneAhead_reread htail (by decide) (noneAhead_nil _))]
    refine (expect_tracks htail (by decide) []).map ?_
    exact fun _ => rfl
  | t :: ts =>
    rw [reread_cons, moreArguments, moreArguments]
    refine .ite Iff.rfl (fun _ => .ok (List.suffix_cons t ts) rfl _ _) fun _ => ?_
    refine .ite Iff.rfl (fun _ => ?_) fun _ => ?_
    · refine Tracks.after ?_
      refine (chain_tracks htail tiers (by decide) ts).andThen fun e rest hle _ => ?_
      refine (moreArguments_tracks htail rest).map ?_
      exact fun _ => rfl
    · refine (expect_tracks htail (by decide) (t :: ts)).map ?_
      exact fun _ => rfl
termination_by 20 * ts.length
decreasing_by
  all_goals
    have htiers := tiers_length
    simp only [List.length_cons]
    omega

end

/-! ## Statements -/

theorem skip_suffix (text : String) (ts : List Token) : skip text ts <:+ ts := by
  cases ts with
  | nil => exact List.suffix_refl []
  | cons t ts =>
    rw [skip]
    split
    · exact List.suffix_cons t ts
    · exact List.suffix_refl _

theorem assignment_fails_of_value {start sign : Token} {ts rest : List Token} {name : String}
    {e : CompileError} (h : (expression file ts).Gives (.var name) (sign :: rest))
    (hsign : sign.text = "=") (he : (expression file rest).Fails e) :
    (assignment file start ts).Fails e := by
  unfold assignment
  rw [h.andThen_fails_iff]
  dsimp only
  rw [if_pos hsign]
  exact (fails_map ..).2 he

theorem assignment_fails_of_target {start sign : Token} {ts rest : List Token} {target : Expr}
    (h : (expression file ts).Gives target (sign :: rest)) (hsign : sign.text = "=")
    (hvar : ∀ name, target ≠ .var name) :
    (assignment file start ts).Fails
      (.atToken .unsupportedAssignmentTarget "only variables may be assigned to" start) := by
  unfold assignment
  rw [h.andThen_fails_iff]
  dsimp only
  rw [if_pos hsign]
  split
  · next name => exact absurd rfl (hvar name)
  · rfl

section

variable (htail : AtLineEnd tail)
include htail

theorem skip_reread {text : String} (htext : text ≠ Token.newline) (ts : List Token) :
    skip text (reread g tail ts) = reread g tail (skip text ts) := by
  cases ts with
  | nil =>
    cases ht : tail with
    | nil => rfl
    | cons n more =>
      have hn : n.text ≠ text := text_of_atLineEnd htail ht ▸ htext.symm
      exact if_neg hn
  | cons t ts =>
    rw [reread_cons, skip, skip]
    by_cases ht : t.text = text
    · rw [if_pos ht, if_pos (show (t.moved g).text = text from ht)]
    · rw [if_neg ht, if_neg (show (t.moved g).text ≠ text from ht), reread_cons]

theorem otherwise_tracks (ts : List Token) :
    Tracks g tail id (otherwise file ts) (otherwise file (reread g tail ts)) := by
  cases ts with
  | nil =>
    refine .gives none [] ⟨rfl, rfl⟩ (List.suffix_refl _) ?_
    exact otherwise_gives_iff.2 ⟨[], rfl, .absent, fun _ => htail.noneAhead _ (by decide)⟩
  | cons t ts =>
    have hlabel : Tracks g tail id (labelName file (skip "goto" ts))
        (labelName file (skip "goto" (reread g tail ts))) := by
      rw [skip_reread htail (by decide)]
      exact labelName_tracks htail (skip "goto" ts)
    rw [reread_cons, otherwise, otherwise]
    refine .ite Iff.rfl (fun _ => ?_) fun _ => .ok (List.suffix_refl _) rfl _ _
    refine (hlabel.map ?_).within ((skip_suffix "goto" ts).trans (List.suffix_cons t ts)) _ _
    exact fun _ => rfl

theorem expression_tracks (ts : List Token) :
    Tracks g tail (Expr.moved g) (expression file ts) (expression file (reread g tail ts)) :=
  chain_tracks htail tiers (by decide) ts

theorem branch_tracks (ts : List Token) :
    Tracks g tail (Action.moved g) (branch file ts) (branch file (reread g tail ts)) := by
  unfold branch
  refine (expression_tracks htail ts).andThen fun condition rest _ _ => ?_
  refine (expect_tracks htail (by decide) rest).andThen fun _ rest _ _ => ?_
  refine (labelName_tracks htail rest).andThen fun whenTrue rest _ _ => ?_
  refine (otherwise_tracks htail rest).map ?_
  exact fun _ => rfl

/-- An assignment to anything but a variable fails at its first token, which is behind by then. -/
theorem assignment_tracks {start : Token} {ts : List Token} (hstart : start ∈ ts) :
    Tracks g tail (Action.moved g) (assignment file start ts)
      (assignment file (start.moved g) (reread g tail ts)) := by
  have hexpression (us : List Token) : Tracks g tail (Expr.moved g) (expression file us)
      (expression file (reread g tail us)) := expression_tracks htail us
  cases hexpression ts with
  | fails e e' hp hq he => exact .fails e e' (hp.andThen _) (hq.andThen _) he
  | gives target rest hp hrest hq =>
    -- the sign decides, then the target; each way is one of the parser's outcomes
    by_cases hn : NoneAhead ["="] rest
    · refine .gives (.evaluate target) rest (assignment_gives_iff.2 (.inl ⟨target, hp, hn, rfl⟩)) hrest ?_
      exact assignment_gives_iff.2 (.inl ⟨_, hq, noneAhead_reread htail (by decide) hn, rfl⟩)
    obtain ⟨sign, rest, rfl, hsign⟩ := exists_of_not_noneAhead hn
    by_cases hvar : ∃ name, target = .var name
    · obtain ⟨name, rfl⟩ := hvar
      cases hexpression rest with
      | gives e left hp' hleft hq' =>
        refine .gives (.assign (.var name) e) left ?_
          (hleft.trans ((List.suffix_cons sign rest).trans hrest)) ?_
        · exact assignment_gives_iff.2 (.inr ⟨name, sign, rest, e, hp, hsign, hp', rfl⟩)
        · exact assignment_gives_iff.2 (.inr ⟨name, sign.moved g, _, e.moved g, hq, hsign, hq', rfl⟩)
      | fails e e' hp' hq' he =>
        refine .fails e e' (assignment_fails_of_value hp hsign hp')
          (assignment_fails_of_value hq (show (sign.moved g).text = "=" from hsign) hq') ?_
        exact he.mono ((List.suffix_cons sign rest).trans hrest).subset
    · rw [not_exists] at hvar
      have hvar' (name : String) : target.moved g ≠ .var name := by
        intro h
        cases target with
        | var other => exact hvar other rfl
        | _ => cases h
      exact .fails _ _ (assignment_fails_of_target hp hsign hvar)
        (assignment_fails_of_target hq (show (sign.moved g).text = "=" from hsign) hvar')
        (.token (by decide) hstart)

theorem action_tracks (start : Token) (ts : List Token) :
    Tracks g tail (Action.moved g) (action file start ts)
      (action file (start.moved g) (reread g tail ts)) := by
  unfold action
  refine .ite Iff.rfl (fun _ => ?_) fun _ => ?_
  · refine (labelName_tracks htail (start :: ts)).map ?_
    exact fun _ => rfl
  refine .ite Iff.rfl (fun _ => (branch_tracks htail ts).after) fun _ => ?_
  refine .ite Iff.rfl (fun _ => ?_) fun _ => ?_
  · refine ((labelName_tracks htail ts).map ?_).after
    exact fun _ => rfl
  refine .ite Iff.rfl (fun _ => ?_) fun _ => assignment_tracks htail (.head _)
  refine ((expression_tracks htail ts).map ?_).after
  exact fun _ => rfl

theorem statement_tracks (start : Token) (ts : List Token) :
    Tracks g tail (Statement.moved g) (statement file (start :: ts))
      (statement file (reread g tail (start :: ts))) := by
  rw [reread_cons, statement, statement]
  refine (action_tracks htail start ts).map ?_
  exact fun _ => rfl

end

/-! ## Programs -/

theorem fails_statement_or_gives (file : String) (ts : List Token) :
    (∃ e, (statement file ts).Fails e) ∨ ∃ s rest, (statement file ts).Gives s rest := by
  cases hr : (statement file ts).result with
  | error e => exact .inl ⟨e, hr⟩
  | ok s => exact .inr ⟨s, _, hr, rfl⟩

/-- Statements fail in the first of them, at what comes after it, or behind the line ends there. -/
theorem statements_fails_iff {start : Token} {later : List Token} {e : CompileError} :
    (statements file (start :: later)).Fails e ↔
      (statement file (start :: later)).Fails e ∨
        ∃ s t rest, (statement file (start :: later)).Gives s (t :: rest) ∧
          ((¬ t.isNewline ∧ e = .unexpected t) ∨
            (t.isNewline ∧ (statements file (dropNewlines rest)).Fails e)) := by
  rw [statements]
  constructor
  · intro h
    rcases fails_statement_or_gives file (start :: later) with ⟨e₀, hs⟩ | ⟨s, rest, hs⟩
    · have heq : e₀ = e := Except.error.inj ((hs.andThen _).symm.trans h)
      exact .inl (heq ▸ hs)
    · rw [hs.andThen_fails_iff] at h
      cases rest with
      | nil => cases h
      | cons t rest =>
        refine .inr ⟨s, t, rest, hs, ?_⟩
        dsimp only at h
        by_cases ht : t.isNewline
        · rw [if_pos ht] at h
          exact .inr ⟨ht, (fails_map ..).1 h⟩
        · rw [if_neg ht] at h
          exact .inl ⟨ht, (Except.error.inj h).symm⟩
  · rintro (hs | ⟨s, t, rest, hs, h⟩)
    · exact hs.andThen _
    · rw [hs.andThen_fails_iff]
      dsimp only
      rcases h with ⟨ht, rfl⟩ | ⟨ht, h⟩
      · rw [if_neg ht]
        rfl
      · rw [if_pos ht]
        exact (fails_map ..).2 h

theorem not_statements_nil_fails (e : CompileError) : ¬ (statements file []).Fails e := by
  rw [statements]
  intro h
  cases h

/-- Tokens that are not all line ends are the same after the line ends before them. -/
theorem dropNewlines_reread {ts : List Token} (h : dropNewlines ts ≠ []) :
    dropNewlines (reread g tail ts) = reread g tail (dropNewlines ts) := by
  induction ts with
  | nil => exact absurd rfl h
  | cons t ts ih =>
    unfold dropNewlines at h ih ⊢
    rw [List.dropWhile_cons] at h
    rw [reread_cons, List.dropWhile_cons, List.dropWhile_cons]
    by_cases ht : t.isNewline
    · rw [if_pos ht] at h
      rw [if_pos ht, if_pos (show (t.moved g).isNewline from ht)]
      exact ih h
    · rw [if_neg ht, if_neg (show ¬ (t.moved g).isNewline from ht), reread_cons]

theorem dropNewlines_suffix (ts : List Token) : dropNewlines ts <:+ ts :=
  List.dropWhile_suffix _

/-- Statements that fail in one reading fail in the other. Those that succeed may go on behind the line
end that comes after them, so that only failures return. -/
theorem statements_returns (htail : AtLineEnd tail) (ts : List Token) {e : CompileError}
    (h : (statements file ts).Fails e) :
    ∃ e', (statements file (reread g tail ts)).Fails e' ∧ e.Returns g tail ts e' := by
  induction hlength : ts.length using Nat.strong_induction_on generalizing ts with
  | _ n ih =>
    cases ts with
    | nil => exact absurd h (not_statements_nil_fails e)
    | cons start later =>
      have htracks : Tracks g tail (Statement.moved g) (statement file (start :: later))
          (statement file (reread g tail (start :: later))) := statement_tracks htail start later
      rcases statements_fails_iff.1 h with hs | ⟨s, t, rest, hs, hrest⟩
      · obtain ⟨e', hs', he⟩ := htracks.of_fails hs
        exact ⟨e', statements_fails_iff.2 (.inl hs'), he⟩
      obtain ⟨hsuffix, hs'⟩ := htracks.of_gives hs
      rcases hrest with ⟨ht, rfl⟩ | ⟨ht, hrest⟩
      · refine ⟨.unexpected (t.moved g), statements_fails_iff.2 (.inr ⟨_, _, _, hs', .inl ⟨ht, rfl⟩⟩), ?_⟩
        exact .token (by decide) (hsuffix.subset (.head _))
      -- the error is behind the line ends, so tokens are left there
      have hne : dropNewlines rest ≠ [] := by
        intro hnil
        rw [hnil] at hrest
        exact not_statements_nil_fails e hrest
      have hshorter : (dropNewlines rest).length < n := by
        have hdrop := dropNewlines_length_le rest
        have hle := hs.length_le
        simp only [List.length_cons] at hle hlength
        omega
      obtain ⟨e', hrest', he⟩ := ih _ hshorter (dropNewlines rest) hrest rfl
      rw [← dropNewlines_reread hne] at hrest'
      refine ⟨e', statements_fails_iff.2 (.inr ⟨_, _, _, hs', .inr ⟨ht, hrest'⟩⟩), he.mono ?_⟩
      exact ((dropNewlines_suffix rest).trans ((List.suffix_cons t rest).trans hsuffix)).subset

theorem program_fails_iff {ts : List Token} {e : CompileError} :
    program file ts = .error e ↔ (statements file (dropNewlines ts)).Fails e := by
  unfold program Fails
  cases (statements file (dropNewlines ts)).result <;> simp [Except.map]

/-- A program that fails, fails in the other reading: at the same token, or where its tokens ran out, at
the line end after them. -/
theorem program_returns (htail : AtLineEnd tail) {ts : List Token} {e : CompileError}
    (h : program file ts = .error e) :
    ∃ e', program file (reread g tail ts) = .error e' ∧ e.Returns g tail ts e' := by
  rw [program_fails_iff] at h
  have hne : dropNewlines ts ≠ [] := by
    intro hnil
    rw [hnil] at h
    exact not_statements_nil_fails e h
  obtain ⟨e', h', he⟩ := statements_returns htail (dropNewlines ts) h
  rw [← dropNewlines_reread hne] at h'
  exact ⟨e', program_fails_iff.2 h', he.mono (dropNewlines_suffix ts).subset⟩

end Parser

end GotoScript
