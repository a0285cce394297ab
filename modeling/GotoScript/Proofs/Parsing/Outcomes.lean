import GotoScript.Proofs.Parsing.Grammar

/-!
# What each reading function accepts

`Parsed.Gives p a rest` says that `p` succeeded with `a` and left `rest`. Every function of the parser
has a lemma here, `…_gives_iff`, that says when it gives what:

* `expect_gives_iff`, `word_gives_iff`, `labelName_gives_iff` for single tokens;
* `number_gives_iff` for numbers, and for entities one lemma for each direction,
  `entity_gives_of_entity` and `entity_of_entity_gives`;
* `chain_cons_gives_iff`, `chainRest_gives_iff`, `unary_gives_iff`, `suffixed_gives_iff`,
  `primary_gives_iff`, `suffixes_gives_iff`, `arguments_gives_iff`, `moreArguments_gives_iff` for
  expressions;
* `otherwise_gives_iff`, `branch_gives_iff`, `assignment_gives_iff`, `action_gives_iff`,
  `statement_gives_iff`, `statements_gives_iff` for statements.

Nothing after this module opens the parser's definitions.
-/

namespace GotoScript

@[simp]
theorem noneAhead_nil (texts : List String) : NoneAhead texts [] := by
  simp [NoneAhead]

@[simp]
theorem noneAhead_cons (texts : List String) (t : Token) (tokens : List Token) :
    NoneAhead texts (t :: tokens) ↔ t.text ∉ texts := by
  simp [NoneAhead]

theorem NoneAhead.of_append {texts : List String} {ts rest : List Token}
    (h : NoneAhead texts (ts ++ rest)) : NoneAhead texts ts := by
  cases ts with
  | nil => exact noneAhead_nil texts
  | cons t ts => simpa using h

namespace Parsed

variable {α β : Type} {tokens : List Token}

/-- The outcome is the value `a`, and `rest` is left. -/
def Gives (p : Parsed α tokens) (a : α) (rest : List Token) : Prop :=
  p.result = .ok a ∧ p.rest = rest

theorem Gives.length_le {p : Parsed α tokens} {a : α} {rest : List Token} (h : p.Gives a rest) :
    rest.length ≤ tokens.length := by
  rw [← h.2]
  exact p.rest_le

@[simp]
theorem gives_mk (r : Except CompileError α) (left : List Token) (h : left.length ≤ tokens.length)
    (a : α) (rest : List Token) :
    (⟨r, left, h⟩ : Parsed α tokens).Gives a rest ↔ r = .ok a ∧ left = rest :=
  Iff.rfl

@[simp]
theorem gives_ok (v : α) (left : List Token) (h : left.length ≤ tokens.length) (a : α)
    (rest : List Token) : (ok v left h).Gives a rest ↔ v = a ∧ left = rest := by
  simp [ok]

@[simp]
theorem gives_fail (e : CompileError) (left : List Token) (h : left.length ≤ tokens.length) (a : α)
    (rest : List Token) : (fail e left h).Gives a rest ↔ False := by
  simp [fail]

/-- Reading on: the first part gives something, and what follows it gives the rest. -/
theorem gives_andThen_iff (p : Parsed α tokens)
    (next : α → (rest : List Token) → rest.length ≤ tokens.length → Parsed β rest) (b : β)
    (rest : List Token) :
    (p.andThen next).Gives b rest ↔
      ∃ a left, ∃ h : left.length ≤ tokens.length, p.Gives a left ∧ (next a left h).Gives b rest := by
  obtain ⟨r, left, hle⟩ := p
  cases r with
  | error e => simp [andThen]
  | ok a =>
      simp only [andThen, gives_mk, Except.ok.injEq]
      constructor
      · intro h
        exact ⟨a, left, hle, ⟨rfl, rfl⟩, h⟩
      · rintro ⟨_, _, _, ⟨rfl, rfl⟩, h⟩
        exact h

@[simp]
theorem gives_andThen (p : Parsed α tokens) (next : α → (rest : List Token) → Parsed β rest) (b : β)
    (rest : List Token) :
    (p.andThen fun a left _ => next a left).Gives b rest ↔
      ∃ a left, p.Gives a left ∧ (next a left).Gives b rest := by
  rw [gives_andThen_iff]
  constructor
  · rintro ⟨a, left, -, h⟩
    exact ⟨a, left, h⟩
  · rintro ⟨a, left, h, h'⟩
    exact ⟨a, left, h.length_le, h, h'⟩

@[simp]
theorem gives_map (f : α → β) (p : Parsed α tokens) (b : β) (rest : List Token) :
    (p.map f).Gives b rest ↔ ∃ a, p.Gives a rest ∧ f a = b := by
  obtain ⟨r, left, hle⟩ := p
  cases r with
  | error e => simp [map, Except.map]
  | ok a =>
      simp only [map, Except.map, gives_mk, Except.ok.injEq]
      constructor
      · rintro ⟨rfl, rfl⟩
        exact ⟨a, ⟨rfl, rfl⟩, rfl⟩
      · rintro ⟨_, ⟨rfl, rfl⟩, rfl⟩
        exact ⟨rfl, rfl⟩

@[simp]
theorem gives_within {earlier : List Token} (p : Parsed α tokens)
    (h : tokens.length ≤ earlier.length) (a : α) (rest : List Token) :
    (p.within h).Gives a rest ↔ p.Gives a rest :=
  Iff.rfl

@[simp]
theorem gives_after {t : Token} (p : Parsed α tokens) (a : α) (rest : List Token) :
    (p.after (t := t)).Gives a rest ↔ p.Gives a rest :=
  Iff.rfl

end Parsed

namespace Parser

variable {file : String} {tokens rest : List Token}

/-! ## Single tokens -/

theorem expect_gives_iff {text : String} {t : Token} :
    (expect file text tokens).Gives t rest ↔ tokens = t :: rest ∧ t.text = text := by
  cases tokens with
  | nil => simp [expect, CompileError.requireText]
  | cons u us =>
      by_cases hu : u.text = text
      · simp only [expect, CompileError.requireText, List.head?_cons, hu, if_true, List.tail_cons,
          Parsed.gives_ok, List.cons.injEq]
        constructor
        · rintro ⟨rfl, rfl⟩
          exact ⟨⟨rfl, rfl⟩, hu⟩
        · rintro ⟨h, -⟩
          exact h
      · simp only [expect, CompileError.requireText, List.head?_cons, hu, if_false,
          Parsed.gives_fail, List.cons.injEq, false_iff]
        rintro ⟨⟨rfl, -⟩, h⟩
        exact hu h

theorem word_gives_iff {t : Token} :
    (word file tokens).Gives t rest ↔ tokens = t :: rest ∧ t.isWord := by
  cases tokens with
  | nil => simp [word, CompileError.requireWord]
  | cons u us =>
      by_cases hu : u.isWord
      · simp only [word, CompileError.requireWord, List.head?_cons, hu, if_true, List.tail_cons,
          Parsed.gives_mk, Except.ok.injEq, List.cons.injEq]
        constructor
        · rintro ⟨rfl, rfl⟩
          exact ⟨⟨rfl, rfl⟩, hu⟩
        · rintro ⟨h, -⟩
          exact h
      · simp only [word, CompileError.requireWord, List.head?_cons, hu, Bool.false_eq_true, if_false,
          Parsed.gives_mk, reduceCtorEq, false_and, List.cons.injEq, false_iff]
        rintro ⟨⟨rfl, -⟩, h⟩
        exact hu h

theorem labelName_gives_iff {name : String} :
    (labelName file tokens).Gives name rest ↔
      ∃ used, tokens = used ++ rest ∧ Grammar.Label used name := by
  simp only [labelName, Parsed.gives_andThen, Parsed.gives_map, expect_gives_iff, word_gives_iff]
  constructor
  · rintro ⟨sign, _, ⟨rfl, hs⟩, word, ⟨rfl, hw⟩, rfl⟩
    exact ⟨[sign, word], rfl, .mk hs hw⟩
  · rintro ⟨_, rfl, @⟨sign, word, hs, hw⟩⟩
    exact ⟨sign, _, ⟨rfl, hs⟩, word, ⟨rfl, hw⟩, rfl⟩

/-! ## Entities -/

theorem decimals_eq_some_iff {whole : String} {e : Expr} :
    decimals whole tokens = some (e, rest) ↔
      ∃ d, tokens = d :: rest ∧ Literal.isDigits d.text ∧ Literal.float whole d.text = e := by
  cases tokens with
  | nil => simp [decimals]
  | cons d ts =>
      simp only [decimals, List.cons.injEq]
      split
      · next hd =>
        constructor
        · rintro ⟨⟩
          exact ⟨d, ⟨rfl, rfl⟩, hd, rfl⟩
        · rintro ⟨_, ⟨rfl, rfl⟩, -, rfl⟩
          rfl
      · next hd =>
        simp only [reduceCtorEq, false_iff]
        rintro ⟨_, ⟨rfl, rfl⟩, hd', -⟩
        exact hd hd'

theorem number_gives_iff {t : Token} {e : Expr} :
    (number t tokens).Gives e rest ↔
      (Literal.int t = .ok e ∧ tokens = rest ∧ NoneAhead ["."] rest) ∨
        ∃ point d, tokens = point :: d :: rest ∧ point.text = "." ∧ Literal.isDigits d.text ∧
          Literal.float t.text d.text = e := by
  cases tokens with
  | nil =>
      simp only [number, Parsed.gives_mk]
      constructor
      · rintro ⟨hi, rfl⟩
        exact .inl ⟨hi, rfl, noneAhead_nil _⟩
      · rintro (⟨hi, hr, -⟩ | ⟨_, _, h, -⟩)
        · exact ⟨hi, hr⟩
        · cases h
  | cons point ts =>
      rw [number]
      by_cases hp : point.text = "."
      · rw [if_pos hp]
        split
        · next e' left h =>
          obtain ⟨d, rfl, hd, rfl⟩ := decimals_eq_some_iff.1 h
          rw [Parsed.gives_ok]
          constructor
          · rintro ⟨rfl, rfl⟩
            exact .inr ⟨point, d, rfl, hp, hd, rfl⟩
          · rintro (⟨-, rfl, hn⟩ | ⟨_, _, ht, -, -, rfl⟩)
            · exact absurd hp (by simpa using hn)
            · cases ht
              exact ⟨rfl, rfl⟩
        · next h =>
          rw [Parsed.gives_fail, false_iff]
          rintro (⟨-, rfl, hn⟩ | ⟨_, d, ht, -, hd, rfl⟩)
          · exact absurd hp (by simpa using hn)
          · cases ht
            rw [decimals_eq_some_iff.2 ⟨d, rfl, hd, rfl⟩] at h
            cases h
      · rw [if_neg hp, Parsed.gives_mk]
        constructor
        · rintro ⟨hi, rfl⟩
          exact .inl ⟨hi, rfl, by simpa using hp⟩
        · rintro (⟨hi, hr, -⟩ | ⟨_, _, ht, hp', -⟩)
          · exact ⟨hi, hr⟩
          · cases ht
            exact absurd hp' hp

/-! The classes of tokens that entities start with exclude each other. -/

theorem firstChar?_of_text {t : Token} {s : String} (h : t.text = s) :
    t.firstChar? = s.toList.head? := by
  rw [Token.firstChar?, h]

theorem isDigits_head {t : Token} (h : Literal.isDigits t.text) :
    ∃ c, t.firstChar? = some c ∧ c.isDigit := by
  simp only [Literal.isDigits, Bool.and_eq_true, Bool.not_eq_true'] at h
  obtain ⟨hne, hall⟩ := h
  unfold Token.firstChar?
  cases hl : t.text.toList with
  | nil =>
      rw [String.toList_eq_nil_iff] at hl
      rw [hl] at hne
      cases hne
  | cons c cs =>
      rw [hl, List.all_cons, Bool.and_eq_true] at hall
      exact ⟨c, rfl, hall.1⟩

theorem isWord_head {t : Token} (h : t.isWord) :
    ∃ c, t.firstChar? = some c ∧ (c.isAlpha || c = '_') := by
  unfold Token.isWord at h
  split at h
  · next c hc => exact ⟨c, hc, h⟩
  · cases h

theorem isQuoted_head {t : Token} (h : Grammar.IsQuoted t) :
    ∃ c, t.firstChar? = some c ∧ (c = '"' || c = '\'') := by
  rcases h with h | h
  · exact ⟨_, h, rfl⟩
  · exact ⟨_, h, rfl⟩

/-- The token's text is none of those that start with another kind of character. -/
theorem text_notMem_of_head {t : Token} {kind : Char → Bool} (texts : List String)
    (h : ∃ c, t.firstChar? = some c ∧ kind c)
    (hno : texts.all fun s => s.toList.head?.all fun c => !kind c) : t.text ∉ texts := by
  intro hmem
  obtain ⟨c, hc, hk⟩ := h
  have hno' := List.all_eq_true.1 hno _ hmem
  rw [show t.text.toList.head? = some c from hc, Option.all_some, hk] at hno'
  cases hno'

theorem not_isWord_of_isDigits {t : Token} (h : Literal.isDigits t.text) : ¬ t.isWord := by
  intro hw
  obtain ⟨c, hc, hd⟩ := isDigits_head h
  obtain ⟨c', hc', ha⟩ := isWord_head hw
  rw [hc] at hc'
  cases hc'
  rw [Bool.or_eq_true, decide_eq_true_eq] at ha
  rcases ha with ha | rfl
  · have hdigit : c.val ≤ '9'.val := of_decide_eq_true (Bool.and_eq_true_iff.1 hd).2
    have hletter : 'A'.val ≤ c.val ∨ 'a'.val ≤ c.val := by
      rcases Bool.or_eq_true_iff.1 ha with ha | ha
      · exact .inl (of_decide_eq_true ha).1
      · exact .inr (of_decide_eq_true (Bool.and_eq_true_iff.1 ha).1)
    -- both rows of letters begin after the digits
    rcases hletter with h | h <;> exact absurd (UInt32.le_trans h hdigit) (by decide)
  · cases hd

theorem not_isQuoted_of_isWord {t : Token} (h : t.isWord) : ¬ Grammar.IsQuoted t := by
  obtain ⟨c, hc, ha⟩ := isWord_head h
  rintro (hq | hq) <;> rw [hc] at hq <;> cases hq <;> exact absurd ha (by decide)

theorem not_isQuoted_of_isDigits {t : Token} (h : Literal.isDigits t.text) :
    ¬ Grammar.IsQuoted t := by
  obtain ⟨c, hc, hd⟩ := isDigits_head h
  rintro (hq | hq) <;> rw [hc] at hq <;> cases hq <;> exact absurd hd (by decide)

/-- A token of digits starts a number and nothing else. -/
theorem entity_of_isDigits {t : Token} (h : Literal.isDigits t.text) :
    entity file (t :: tokens) = (number t tokens).after := by
  have hno := text_notMem_of_head ["true", "false", "null", "$"] (isDigits_head h) (by decide)
  simp only [List.mem_cons, List.not_mem_nil, or_false, not_or] at hno
  obtain ⟨htrue, hfalse, hnull, hsign⟩ := hno
  have hq := not_isQuoted_of_isDigits h
  rw [Grammar.IsQuoted] at hq
  rw [entity, if_neg (not_or.2 ⟨htrue, hfalse⟩), if_neg hnull, if_neg hsign, if_neg hq,
    if_neg (not_isWord_of_isDigits h), if_pos h]

theorem entity_point_gives_iff {t : Token} {e : Expr} (h : t.text = ".") :
    (entity file (t :: tokens)).Gives e rest ↔
      ∃ d, tokens = d :: rest ∧ Literal.isDigits d.text ∧ Literal.float "0" d.text = e := by
  have hc : t.firstChar? = some '.' := firstChar?_of_text h
  have hword : t.isWord = false := by
    rw [Token.isWord, hc]
    rfl
  have hdigits : Literal.isDigits "." = false := by decide
  simp only [entity, h, hc, hword, hdigits]
  rw [if_neg (by decide), if_neg (by decide), if_neg (by decide), if_neg (by decide),
    if_neg (by decide), if_neg (by decide), if_pos trivial]
  split
  · next e' left hs =>
    obtain ⟨d, rfl, hd, rfl⟩ := decimals_eq_some_iff.1 hs
    rw [Parsed.gives_ok]
    constructor
    · rintro ⟨rfl, rfl⟩
      exact ⟨d, rfl, hd, rfl⟩
    · rintro ⟨_, ht, -, rfl⟩
      cases ht
      exact ⟨rfl, rfl⟩
  · next hs =>
    rw [Parsed.gives_fail, false_iff]
    intro hd
    rw [decimals_eq_some_iff.2 hd] at hs
    cases hs

theorem entity_gives_of_entity {used : List Token} {e : Expr} (h : Grammar.Entity used e)
    (hw : Grammar.IsWhole used → NoneAhead ["."] rest) :
    (entity file (used ++ rest)).Gives e rest := by
  cases h with
  | @bool t ht => simp [entity, ht]
  | @null t ht => simp [entity, ht]
  | @system sign name ht hname =>
      simp only [entity, ht, List.cons_append, List.nil_append]
      rw [if_neg (by decide), if_neg (by decide), if_pos trivial, Parsed.gives_after, Parsed.gives_map]
      exact ⟨name, word_gives_iff.2 ⟨rfl, hname⟩, rfl⟩
  | @text t value hq hvalue =>
      have hno := text_notMem_of_head ["true", "false", "null", "$"] (isQuoted_head hq) (by decide)
      simp only [List.mem_cons, List.not_mem_nil, or_false, not_or] at hno
      obtain ⟨htrue, hfalse, hnull, hsign⟩ := hno
      rw [Grammar.IsQuoted] at hq
      simp [entity, htrue, hfalse, hnull, hsign, hq, hvalue, Except.map]
  | @serviceRoot t ht =>
      have hc : t.firstChar? = some 'C' := firstChar?_of_text ht
      have hword : t.isWord := by
        rw [Token.isWord, hc]
        rfl
      simp [entity, ht, hc, hword, Expr.rootWord]
  | @var t hword hfree =>
      have hsign := text_notMem_of_head ["$"] (isWord_head hword) (by decide)
      rw [List.mem_singleton] at hsign
      have hq := not_isQuoted_of_isWord hword
      rw [Grammar.IsQuoted] at hq
      simp only [Grammar.reserved, List.mem_cons, List.not_mem_nil, or_false, not_or] at hfree
      obtain ⟨htrue, hfalse, hnull, -, hroot⟩ := hfree
      simp [entity, htrue, hfalse, hnull, hroot, hsign, hq, hword]
  | @int t _ hdigits hvalue =>
      rw [List.singleton_append, entity_of_isDigits hdigits, Parsed.gives_after, number_gives_iff]
      exact .inl ⟨hvalue, rfl, hw ⟨t, rfl, hdigits⟩⟩
  | @float whole point d hdigits hp hd =>
      rw [List.cons_append, entity_of_isDigits hdigits, Parsed.gives_after, number_gives_iff]
      exact .inr ⟨point, d, rfl, hp, hd, rfl⟩
  | @fraction point d hp hd =>
      rw [List.cons_append, entity_point_gives_iff hp]
      exact ⟨d, rfl, hd, rfl⟩

theorem not_isWhole_pair {t u : Token} {ts : List Token} : ¬ Grammar.IsWhole (t :: u :: ts) := by
  rintro ⟨_, h, -⟩
  cases h

theorem entity_of_isDigits_gives {t : Token} {e : Expr} (hdigits : Literal.isDigits t.text)
    (h : (entity file (t :: tokens)).Gives e rest) :
    ∃ used, t :: tokens = used ++ rest ∧ Grammar.Entity used e ∧
      (Grammar.IsWhole used → NoneAhead ["."] rest) := by
  rw [entity_of_isDigits hdigits, Parsed.gives_after, number_gives_iff] at h
  rcases h with ⟨hvalue, rfl, hw⟩ | ⟨point, d, rfl, hp, hd, rfl⟩
  · exact ⟨[t], rfl, .int hdigits hvalue, fun _ => hw⟩
  · exact ⟨[t, point, d], rfl, .float hdigits hp hd, fun hw => absurd hw not_isWhole_pair⟩

/-- An entity that starts with neither digits nor a point. -/
theorem entity_of_symbol_gives {t : Token} {e : Expr} (hdigits : ¬ Literal.isDigits t.text)
    (hpoint : t.text ≠ ".") (hn : t.text ≠ "not") (h : (entity file (t :: tokens)).Gives e rest) :
    ∃ used, t :: tokens = used ++ rest ∧ Grammar.Entity used e ∧ ¬ Grammar.IsWhole used := by
  have hone : ¬ Grammar.IsWhole [t] := by
    rintro ⟨_, ⟨⟩, hd⟩
    exact hdigits hd
  rw [entity] at h
  split at h
  · next hb =>
    obtain ⟨rfl, rfl⟩ := (Parsed.gives_ok ..).1 h
    exact ⟨[t], rfl, .bool hb, hone⟩
  split at h
  · next hnull =>
    obtain ⟨rfl, rfl⟩ := (Parsed.gives_ok ..).1 h
    exact ⟨[t], rfl, .null hnull, hone⟩
  split at h
  · next hs =>
    obtain ⟨name, hname, rfl⟩ := (Parsed.gives_map ..).1 ((Parsed.gives_after ..).1 h)
    obtain ⟨rfl, hword⟩ := word_gives_iff.1 hname
    exact ⟨[t, name], rfl, .system hs hword, not_isWhole_pair⟩
  split at h
  · next hq =>
    obtain ⟨hvalue, rfl⟩ := (Parsed.gives_mk ..).1 h
    cases hv : Literal.text t with
    | error _ =>
        rw [hv] at hvalue
        cases hvalue
    | ok value =>
        rw [hv] at hvalue
        cases hvalue
        exact ⟨[t], rfl, .text hq hv, hone⟩
  split at h
  · next hb hnull hs hq hword =>
    obtain ⟨rfl, rfl⟩ := (Parsed.gives_ok ..).1 h
    split
    · next hroot => exact ⟨[t], rfl, .serviceRoot hroot, hone⟩
    · next hroot =>
      refine ⟨[t], rfl, .var hword ?_, hone⟩
      simp only [Grammar.reserved, List.mem_cons, List.not_mem_nil, or_false, not_or]
      rw [not_or] at hb
      exact ⟨hb.1, hb.2, hnull, hn, hroot⟩
  exact ((Parsed.gives_fail ..).1 h).elim

theorem entity_of_entity_gives {e : Expr} (hn : NoneAhead ["not"] tokens)
    (h : (entity file tokens).Gives e rest) :
    ∃ used, tokens = used ++ rest ∧ Grammar.Entity used e ∧
      (Grammar.IsWhole used → NoneAhead ["."] rest) := by
  cases tokens with
  | nil => simp [entity] at h
  | cons t ts =>
      by_cases hdigits : Literal.isDigits t.text
      · exact entity_of_isDigits_gives hdigits h
      by_cases hpoint : t.text = "."
      · obtain ⟨d, rfl, hd, rfl⟩ := (entity_point_gives_iff hpoint).1 h
        exact ⟨[t, d], rfl, .fraction hpoint hd, fun hw => absurd hw not_isWhole_pair⟩
      · rw [noneAhead_cons, List.mem_singleton] at hn
        obtain ⟨used, htok, hent, hw⟩ := entity_of_symbol_gives hdigits hpoint hn h
        exact ⟨used, htok, hent, fun hwhole => absurd hwhole hw⟩

/-! ## Expressions -/

@[simp]
theorem chainOf_nil (first : Expr) : chainOf first [] = first := rfl

theorem chainOf_of_ne_nil (first : Expr) {more : List (Token × Expr)} (h : more ≠ []) :
    chainOf first more = .chain (first :: more.map (·.2)) (more.map (·.1)) := by
  rw [chainOf, if_neg (by simpa using h)]

theorem chain_nil_gives_iff {e : Expr} :
    (chain file [] tokens).Gives e rest ↔ (unary file tokens).Gives e rest := by
  rw [chain]

theorem chain_cons_gives_iff {operators : List String} {tighter : List (List String)} {e : Expr} :
    (chain file (operators :: tighter) tokens).Gives e rest ↔
      ∃ first left more, (chain file tighter tokens).Gives first left ∧
        (chainRest file operators tighter left).Gives more rest ∧ chainOf first more = e := by
  rw [chain, Parsed.gives_andThen]
  simp only [Parsed.gives_map, exists_and_left]

theorem chainRest_gives_iff {operators : List String} {tighter : List (List String)}
    {more : List (Token × Expr)} :
    (chainRest file operators tighter tokens).Gives more rest ↔
      (more = [] ∧ tokens = rest ∧ NoneAhead operators rest) ∨
        ∃ op ts e left more', tokens = op :: ts ∧ op.text ∈ operators ∧
          (chain file tighter ts).Gives e left ∧
          (chainRest file operators tighter left).Gives more' rest ∧ more = (op, e) :: more' := by
  cases tokens with
  | nil =>
      rw [chainRest, Parsed.gives_ok]
      constructor
      · rintro ⟨rfl, rfl⟩
        exact .inl ⟨rfl, rfl, noneAhead_nil _⟩
      · rintro (⟨rfl, rfl, -⟩ | ⟨_, _, _, _, _, h, -⟩)
        · exact ⟨rfl, rfl⟩
        · cases h
  | cons t ts =>
      rw [chainRest]
      by_cases ht : t.text ∈ operators
      · rw [if_pos ht, Parsed.gives_after, Parsed.gives_andThen]
        simp only [Parsed.gives_map]
        constructor
        · rintro ⟨e, left, he, more', hm, rfl⟩
          exact .inr ⟨t, ts, e, left, more', rfl, ht, he, hm, rfl⟩
        · rintro (⟨-, rfl, hn⟩ | ⟨_, _, e, left, more', h, -, he, hm, rfl⟩)
          · exact absurd ht ((noneAhead_cons ..).1 hn)
          · cases h
            exact ⟨e, left, he, more', hm, rfl⟩
      · rw [if_neg ht, Parsed.gives_ok]
        constructor
        · rintro ⟨rfl, rfl⟩
          exact .inl ⟨rfl, rfl, (noneAhead_cons ..).2 ht⟩
        · rintro (⟨rfl, rfl, -⟩ | ⟨_, _, _, _, _, h, ht', -⟩)
          · exact ⟨rfl, rfl⟩
          · cases h
            exact absurd ht' ht

theorem unary_gives_iff {e : Expr} :
    (unary file tokens).Gives e rest ↔
      (∃ t ts operand, tokens = t :: ts ∧ t.text = "not" ∧ (unary file ts).Gives operand rest ∧
          e = .not operand) ∨
        (∃ t ts operand, tokens = t :: ts ∧ t.text = "-" ∧ (unary file ts).Gives operand rest ∧
          e = .negate operand) ∨
        (NoneAhead ["not", "-"] tokens ∧ (suffixed file tokens).Gives e rest) := by
  cases tokens with
  | nil => simp [unary]
  | cons t ts =>
      rw [unary]
      by_cases hnot : t.text = "not"
      · rw [if_pos hnot, Parsed.gives_after, Parsed.gives_map]
        constructor
        · rintro ⟨operand, h, rfl⟩
          exact .inl ⟨t, ts, operand, rfl, hnot, h, rfl⟩
        · rintro (⟨_, _, operand, h, -, ho, rfl⟩ | ⟨_, _, _, h, hminus, -⟩ | ⟨hn, -⟩)
          · cases h
            exact ⟨operand, ho, rfl⟩
          · cases h
            rw [hnot] at hminus
            exact absurd hminus (by decide)
          · simp [hnot] at hn
      by_cases hminus : t.text = "-"
      · rw [if_neg hnot, if_pos hminus, Parsed.gives_after, Parsed.gives_map]
        constructor
        · rintro ⟨operand, h, rfl⟩
          exact .inr (.inl ⟨t, ts, operand, rfl, hminus, h, rfl⟩)
        · rintro (⟨_, _, _, h, hnot', -⟩ | ⟨_, _, operand, h, -, ho, rfl⟩ | ⟨hn, -⟩)
          · cases h
            exact absurd hnot' hnot
          · cases h
            exact ⟨operand, ho, rfl⟩
          · simp [hminus] at hn
      · rw [if_neg hnot, if_neg hminus]
        constructor
        · intro h
          exact .inr (.inr ⟨by simp [hnot, hminus], h⟩)
        · rintro (⟨_, _, _, h, hnot', -⟩ | ⟨_, _, _, h, hminus', -⟩ | ⟨-, h⟩)
          · cases h
            exact absurd hnot' hnot
          · cases h
            exact absurd hminus' hminus
          · exact h

theorem suffixed_gives_iff {e : Expr} :
    (suffixed file tokens).Gives e rest ↔
      ∃ root left, (primary file tokens).Gives root left ∧ (suffixes file root left).Gives e rest := by
  rw [suffixed, Parsed.gives_andThen]

theorem primary_gives_iff {e : Expr} :
    (primary file tokens).Gives e rest ↔
      (∃ l ts r, tokens = l :: ts ∧ l.text = "(" ∧ (chain file tiers ts).Gives e (r :: rest) ∧
          r.text = ")") ∨
        (NoneAhead ["("] tokens ∧ (entity file tokens).Gives e rest) := by
  cases tokens with
  | nil => simp [primary]
  | cons t ts =>
      rw [primary]
      by_cases hl : t.text = "("
      · rw [if_pos hl, Parsed.gives_after, Parsed.gives_andThen]
        simp only [Parsed.gives_map, expect_gives_iff]
        constructor
        · rintro ⟨_, _, he, r, ⟨rfl, hr⟩, rfl⟩
          exact .inl ⟨t, ts, r, rfl, hl, he, hr⟩
        · rintro (⟨_, _, r, h, -, he, hr⟩ | ⟨hn, -⟩)
          · cases h
            exact ⟨e, r :: rest, he, r, ⟨rfl, hr⟩, rfl⟩
          · simp [hl] at hn
      · rw [if_neg hl]
        constructor
        · intro h
          exact .inr ⟨by simp [hl], h⟩
        · rintro (⟨_, _, _, h, hl', -⟩ | ⟨-, h⟩)
          · cases h
            exact absurd hl' hl
          · exact h

theorem suffixes_point_gives_iff {root e : Expr} {t : Token} (h : t.text = ".") :
    (suffixes file root (t :: tokens)).Gives e rest ↔
      ∃ name ts, tokens = name :: ts ∧ name.isWord ∧
        (suffixes file (.field root name.text) ts).Gives e rest := by
  rw [suffixes, if_pos h, Parsed.gives_after, Parsed.gives_andThen]
  simp only [word_gives_iff, and_assoc]

theorem suffixes_bracket_gives_iff {root e : Expr} {t : Token} (h : t.text = "[") :
    (suffixes file root (t :: tokens)).Gives e rest ↔
      ∃ key r ts, (chain file tiers tokens).Gives key (r :: ts) ∧ r.text = "]" ∧
        (suffixes file (.index root key) ts).Gives e rest := by
  rw [suffixes, if_neg (by rw [h]; decide), if_pos h, Parsed.gives_after, Parsed.gives_andThen]
  simp only [Parsed.gives_andThen, expect_gives_iff]
  constructor
  · rintro ⟨key, _, hkey, r, ts, ⟨rfl, hr⟩, hs⟩
    exact ⟨key, r, ts, hkey, hr, hs⟩
  · rintro ⟨key, r, ts, hkey, hr, hs⟩
    exact ⟨key, r :: ts, hkey, r, ts, ⟨rfl, hr⟩, hs⟩

theorem suffixes_parenthesis_gives_iff {root e : Expr} {t : Token} (h : t.text = "(") :
    (suffixes file root (t :: tokens)).Gives e rest ↔
      ∃ args ts, (arguments file tokens).Gives args ts ∧
        (suffixes file (.call root args) ts).Gives e rest := by
  rw [suffixes, if_neg (by rw [h]; decide), if_neg (by rw [h]; decide), if_pos h,
    Parsed.gives_after, Parsed.gives_andThen]

theorem suffixes_gives_iff_of_noneAhead {root e : Expr} (h : NoneAhead Grammar.openers tokens) :
    (suffixes file root tokens).Gives e rest ↔ e = root ∧ tokens = rest := by
  cases tokens with
  | nil => rw [suffixes, Parsed.gives_ok, eq_comm]
  | cons t ts =>
      simp only [noneAhead_cons, Grammar.openers, List.mem_cons, List.not_mem_nil, or_false,
        not_or] at h
      obtain ⟨hp, hk, hc⟩ := h
      simp [suffixes, hp, hk, hc, eq_comm]

theorem suffixes_gives_iff {root e : Expr} :
    (suffixes file root tokens).Gives e rest ↔
      (e = root ∧ tokens = rest ∧ NoneAhead Grammar.openers rest) ∨
        (∃ point name ts, tokens = point :: name :: ts ∧ point.text = "." ∧ name.isWord ∧
          (suffixes file (.field root name.text) ts).Gives e rest) ∨
        (∃ l ts key r left, tokens = l :: ts ∧ l.text = "[" ∧
          (chain file tiers ts).Gives key (r :: left) ∧ r.text = "]" ∧
          (suffixes file (.index root key) left).Gives e rest) ∨
        (∃ l ts args left, tokens = l :: ts ∧ l.text = "(" ∧ (arguments file ts).Gives args left ∧
          (suffixes file (.call root args) left).Gives e rest) := by
  constructor
  · intro h
    by_cases hn : NoneAhead Grammar.openers tokens
    · obtain ⟨rfl, rfl⟩ := (suffixes_gives_iff_of_noneAhead hn).1 h
      exact .inl ⟨rfl, rfl, hn⟩
    cases tokens with
    | nil => exact absurd (noneAhead_nil _) hn
    | cons t ts =>
        rw [noneAhead_cons, Decidable.not_not] at hn
        simp only [Grammar.openers, List.mem_cons, List.not_mem_nil, or_false] at hn
        rcases hn with ht | ht | ht
        · obtain ⟨name, left, rfl, hw, hs⟩ := (suffixes_point_gives_iff ht).1 h
          exact .inr (.inl ⟨t, name, left, rfl, ht, hw, hs⟩)
        · obtain ⟨key, r, left, hkey, hr, hs⟩ := (suffixes_bracket_gives_iff ht).1 h
          exact .inr (.inr (.inl ⟨t, ts, key, r, left, rfl, ht, hkey, hr, hs⟩))
        · obtain ⟨args, left, ha, hs⟩ := (suffixes_parenthesis_gives_iff ht).1 h
          exact .inr (.inr (.inr ⟨t, ts, args, left, rfl, ht, ha, hs⟩))
  · rintro (⟨rfl, rfl, hn⟩ | ⟨point, name, ts, rfl, hp, hw, h⟩ |
      ⟨l, ts, key, r, left, rfl, hl, hkey, hr, h⟩ | ⟨l, ts, args, left, rfl, hl, ha, h⟩)
    · exact (suffixes_gives_iff_of_noneAhead hn).2 ⟨rfl, rfl⟩
    · exact (suffixes_point_gives_iff hp).2 ⟨name, ts, rfl, hw, h⟩
    · exact (suffixes_bracket_gives_iff hl).2 ⟨key, r, left, hkey, hr, h⟩
    · exact (suffixes_parenthesis_gives_iff hl).2 ⟨args, left, ha, h⟩

theorem arguments_gives_iff {args : List Expr} :
    (arguments file tokens).Gives args rest ↔
      (∃ r, tokens = r :: rest ∧ r.text = ")" ∧ args = []) ∨
        (NoneAhead [")"] tokens ∧ ∃ e left es, (chain file tiers tokens).Gives e left ∧
          (moreArguments file left).Gives es rest ∧ args = e :: es) := by
  rw [arguments]
  by_cases hr : tokens.head?.map (·.text) = some ")"
  · obtain ⟨r, hhead, hr'⟩ := Option.map_eq_some_iff.1 hr
    obtain ⟨ts, rfl⟩ := List.head?_eq_some_iff.1 hhead
    rw [if_pos hr, Parsed.gives_ok]
    constructor
    · rintro ⟨rfl, rfl⟩
      exact .inl ⟨r, rfl, hr', rfl⟩
    · rintro (⟨_, h, -, rfl⟩ | ⟨hn, -⟩)
      · cases h
        exact ⟨rfl, rfl⟩
      · simp [hr'] at hn
  · rw [if_neg hr, Parsed.gives_andThen]
    simp only [Parsed.gives_map]
    have hn : NoneAhead [")"] tokens := by
      intro t ht
      rw [ht] at hr
      simpa using hr
    constructor
    · rintro ⟨e, left, he, es, hes, rfl⟩
      exact .inr ⟨hn, e, left, es, he, hes, rfl⟩
    · rintro (⟨r, rfl, hr', -⟩ | ⟨-, e, left, es, he, hes, rfl⟩)
      · simp [hr'] at hn
      · exact ⟨e, left, he, es, hes, rfl⟩

theorem moreArguments_gives_iff {args : List Expr} :
    (moreArguments file tokens).Gives args rest ↔
      (∃ r, tokens = r :: rest ∧ r.text = ")" ∧ args = []) ∨
        ∃ comma ts e left es, tokens = comma :: ts ∧ comma.text = "," ∧
          (chain file tiers ts).Gives e left ∧ (moreArguments file left).Gives es rest ∧
          args = e :: es := by
  cases tokens with
  | nil => simp [moreArguments, expect_gives_iff]
  | cons t ts =>
      rw [moreArguments]
      by_cases hr : t.text = ")"
      · rw [if_pos hr, Parsed.gives_ok]
        constructor
        · rintro ⟨rfl, rfl⟩
          exact .inl ⟨t, rfl, hr, rfl⟩
        · rintro (⟨_, h, -, rfl⟩ | ⟨_, _, _, _, _, h, hc, -⟩)
          · cases h
            exact ⟨rfl, rfl⟩
          · cases h
            rw [hr] at hc
            exact absurd hc (by decide)
      by_cases hc : t.text = ","
      · rw [if_neg hr, if_pos hc, Parsed.gives_after, Parsed.gives_andThen]
        simp only [Parsed.gives_map]
        constructor
        · rintro ⟨e, left, he, es, hes, rfl⟩
          exact .inr ⟨t, ts, e, left, es, rfl, hc, he, hes, rfl⟩
        · rintro (⟨_, h, hr', -⟩ | ⟨_, _, e, left, es, h, -, he, hes, rfl⟩)
          · cases h
            exact absurd hr' hr
          · cases h
            exact ⟨e, left, he, es, hes, rfl⟩
      · rw [if_neg hr, if_neg hc, Parsed.gives_map]
        simp only [expect_gives_iff]
        constructor
        · rintro ⟨_, ⟨h, hc'⟩, -⟩
          cases h
          exact absurd hc' hc
        · rintro (⟨_, h, hr', -⟩ | ⟨_, _, _, _, _, h, hc', -⟩)
          · cases h
            exact absurd hr' hr
          · cases h
            exact absurd hc' hc

/-! ## Statements -/

/-- A label starts with a sign, so that skipping a word before it leaves it as it is. -/
theorem skip_goto_label {used : List Token} {name : String} (h : Grammar.Label used name) :
    skip "goto" (used ++ rest) = used ++ rest := by
  cases h with
  | @mk sign word hs hw =>
      rw [List.cons_append, skip, if_neg (by rw [hs]; decide)]

theorem otherwise_gives_iff {label : Option String} :
    (otherwise file tokens).Gives label rest ↔
      ∃ used, tokens = used ++ rest ∧ Grammar.Otherwise used label ∧
        (used = [] → NoneAhead ["else"] rest) := by
  cases tokens with
  | nil =>
      rw [otherwise, Parsed.gives_ok]
      constructor
      · rintro ⟨rfl, rfl⟩
        exact ⟨[], rfl, .absent, fun _ => noneAhead_nil _⟩
      · rintro ⟨used, h, ho, -⟩
        obtain ⟨rfl, rfl⟩ := List.append_eq_nil_iff.1 h.symm
        cases ho
        exact ⟨rfl, rfl⟩
  | cons t ts =>
      rw [otherwise]
      by_cases ht : t.text = "else"
      · rw [if_pos ht, Parsed.gives_within, Parsed.gives_map]
        simp only [labelName_gives_iff]
        constructor
        · rintro ⟨name, ⟨used, hu, hl⟩, rfl⟩
          cases ts with
          | nil => exact ⟨t :: used, by simpa [skip] using hu, .label ht hl, by simp⟩
          | cons g gs =>
              rw [skip] at hu
              split at hu
              · next hg => exact ⟨t :: g :: used, by simp [hu], .gotoLabel ht hg hl, by simp⟩
              · next hg => exact ⟨t :: used, by simp [hu], .label ht hl, by simp⟩
        · rintro ⟨used, h, ho, hn⟩
          cases ho with
          | absent =>
              subst h
              simp [ht] at hn
          | @label _ ls name hw hl =>
              cases h
              exact ⟨name, ⟨ls, skip_goto_label hl, hl⟩, rfl⟩
          | @gotoLabel _ g ls name hw hg hl =>
              cases h
              exact ⟨name, ⟨ls, by simp [skip, hg], hl⟩, rfl⟩
      · rw [if_neg ht, Parsed.gives_ok]
        constructor
        · rintro ⟨rfl, rfl⟩
          exact ⟨[], rfl, .absent, fun _ => by simpa using ht⟩
        · rintro ⟨used, h, ho, -⟩
          cases ho with
          | absent => exact ⟨rfl, h⟩
          | label hw _ =>
              cases h
              exact absurd hw ht
          | gotoLabel hw _ _ =>
              cases h
              exact absurd hw ht

theorem branch_gives_iff {action : Action} :
    (branch file tokens).Gives action rest ↔
      ∃ condition goto ts os whenTrue whenFalse,
        (expression file tokens).Gives condition (goto :: (ts ++ (os ++ rest))) ∧
        goto.text = "goto" ∧ Grammar.Label ts whenTrue ∧ Grammar.Otherwise os whenFalse ∧
        (os = [] → NoneAhead ["else"] rest) ∧ action = .branch condition whenTrue whenFalse := by
  simp only [branch, Parsed.gives_andThen, Parsed.gives_map, expect_gives_iff, labelName_gives_iff,
    otherwise_gives_iff]
  constructor
  · rintro ⟨condition, _, hc, goto, _, ⟨rfl, hg⟩, whenTrue, _, ⟨ts, rfl, ht⟩, whenFalse,
      ⟨os, rfl, ho, hn⟩, rfl⟩
    exact ⟨condition, goto, ts, os, whenTrue, whenFalse, hc, hg, ht, ho, hn, rfl⟩
  · rintro ⟨condition, goto, ts, os, whenTrue, whenFalse, hc, hg, ht, ho, hn, rfl⟩
    exact ⟨condition, _, hc, goto, _, ⟨rfl, hg⟩, whenTrue, _, ⟨ts, rfl, ht⟩, whenFalse,
      ⟨os, rfl, ho, hn⟩, rfl⟩

theorem assignment_gives_iff {start : Token} {action : Action} :
    (assignment file start tokens).Gives action rest ↔
      (∃ e, (expression file tokens).Gives e rest ∧ NoneAhead ["="] rest ∧ action = .evaluate e) ∨
        ∃ name sign ts e, (expression file tokens).Gives (.var name) (sign :: ts) ∧
          sign.text = "=" ∧ (expression file ts).Gives e rest ∧ action = .assign (.var name) e := by
  rw [assignment, Parsed.gives_andThen_iff]
  constructor
  · rintro ⟨target, left, _, ht, h⟩
    cases left with
    | nil =>
        obtain ⟨rfl, rfl⟩ := (Parsed.gives_ok ..).1 h
        exact .inl ⟨target, ht, noneAhead_nil _, rfl⟩
    | cons sign ts =>
        dsimp only at h
        by_cases hs : sign.text = "="
        · rw [if_pos hs] at h
          split at h
          · next name =>
            rw [Parsed.gives_after, Parsed.gives_map] at h
            obtain ⟨e, he, rfl⟩ := h
            exact .inr ⟨name, sign, ts, e, ht, hs, he, rfl⟩
          · exact ((Parsed.gives_fail ..).1 h).elim
        · rw [if_neg hs] at h
          obtain ⟨rfl, rfl⟩ := (Parsed.gives_ok ..).1 h
          exact .inl ⟨target, ht, by simpa using hs, rfl⟩
  · rintro (⟨e, he, hn, rfl⟩ | ⟨name, sign, ts, e, hv, hs, he, rfl⟩)
    · refine ⟨e, rest, he.length_le, he, ?_⟩
      cases rest with
      | nil => exact ⟨rfl, rfl⟩
      | cons sign ts =>
          rw [noneAhead_cons, List.mem_singleton] at hn
          dsimp only
          rw [if_neg hn]
          exact ⟨rfl, rfl⟩
    · refine ⟨.var name, sign :: ts, hv.length_le, hv, ?_⟩
      dsimp only
      rw [if_pos hs, Parsed.gives_after, Parsed.gives_map]
      exact ⟨e, he, rfl⟩

theorem action_gives_iff {start : Token} {act : Action} :
    (action file start tokens).Gives act rest ↔
      (start.text = "@" ∧ ∃ used name, start :: tokens = used ++ rest ∧ Grammar.Label used name ∧
          act = .label name) ∨
        (start.text = "if" ∧ (branch file tokens).Gives act rest) ∨
        (start.text = "goto" ∧ ∃ used name, tokens = used ++ rest ∧ Grammar.Label used name ∧
          act = .jump name) ∨
        (start.text = "print" ∧ ∃ e, (expression file tokens).Gives e rest ∧ act = .print e) ∨
        (start.text ∉ Grammar.starters ∧
          (assignment file start (start :: tokens)).Gives act rest) := by
  constructor
  · intro h
    rw [action] at h
    split at h
    · next hl =>
      obtain ⟨name, hname, rfl⟩ := (Parsed.gives_map ..).1 h
      obtain ⟨used, hu, hlabel⟩ := labelName_gives_iff.1 hname
      exact .inl ⟨hl, used, name, hu, hlabel, rfl⟩
    split at h
    · next hi => exact .inr (.inl ⟨hi, (Parsed.gives_after ..).1 h⟩)
    split at h
    · next hg =>
      obtain ⟨name, hname, rfl⟩ := (Parsed.gives_map ..).1 ((Parsed.gives_after ..).1 h)
      obtain ⟨used, hu, hlabel⟩ := labelName_gives_iff.1 hname
      exact .inr (.inr (.inl ⟨hg, used, name, hu, hlabel, rfl⟩))
    split at h
    · next hp =>
      obtain ⟨e, he, rfl⟩ := (Parsed.gives_map ..).1 ((Parsed.gives_after ..).1 h)
      exact .inr (.inr (.inr (.inl ⟨hp, e, he, rfl⟩)))
    · next hl hi hg hp =>
      exact .inr (.inr (.inr (.inr ⟨by simp [Grammar.starters, hl, hi, hg, hp], h⟩)))
  · rintro (⟨ht, used, name, hu, hlabel, rfl⟩ | ⟨ht, h⟩ | ⟨ht, used, name, hu, hlabel, rfl⟩ |
      ⟨ht, e, he, rfl⟩ | ⟨ht, h⟩)
    · rw [action, if_pos ht, Parsed.gives_map]
      exact ⟨name, labelName_gives_iff.2 ⟨used, hu, hlabel⟩, rfl⟩
    · simpa [action, ht] using h
    · simp only [action, ht, String.reduceEq, if_true, if_false, Parsed.gives_after, Parsed.gives_map]
      exact ⟨name, labelName_gives_iff.2 ⟨used, hu, hlabel⟩, rfl⟩
    · simp only [action, ht, String.reduceEq, if_true, if_false, Parsed.gives_after, Parsed.gives_map]
      exact ⟨e, he, rfl⟩
    · simp only [Grammar.starters, List.mem_cons, List.not_mem_nil, or_false, not_or] at ht
      obtain ⟨hl, hi, hg, hp⟩ := ht
      rwa [action, if_neg hl, if_neg hi, if_neg hg, if_neg hp]

theorem statement_gives_iff {s : Statement} :
    (statement file tokens).Gives s rest ↔
      ∃ start ts act, tokens = start :: ts ∧ (action file start ts).Gives act rest ∧
        s = ⟨act, start.position⟩ := by
  cases tokens with
  | nil => simp [statement]
  | cons start ts =>
      rw [statement, Parsed.gives_map]
      constructor
      · rintro ⟨act, h, rfl⟩
        exact ⟨start, ts, act, rfl, h, rfl⟩
      · rintro ⟨_, _, act, h, ha, rfl⟩
        cases h
        exact ⟨act, ha, rfl⟩

/-! ## Programs -/

theorem statements_gives_iff {ss : List Statement} :
    (statements file tokens).Gives ss rest ↔
      (tokens = [] ∧ ss = [] ∧ rest = []) ∨
        (∃ s, (statement file tokens).Gives s [] ∧ ss = [s] ∧ rest = []) ∨
        ∃ s t ts more, (statement file tokens).Gives s (t :: ts) ∧ t.isNewline ∧
          (statements file (dropNewlines ts)).Gives more rest ∧ ss = s :: more := by
  cases tokens with
  | nil =>
      rw [statements, Parsed.gives_ok]
      constructor
      · rintro ⟨rfl, rfl⟩
        exact .inl ⟨rfl, rfl, rfl⟩
      · rintro (⟨-, rfl, rfl⟩ | ⟨_, h, -⟩ | ⟨_, _, _, _, h, -⟩)
        · exact ⟨rfl, rfl⟩
        all_goals exact ((Parsed.gives_fail ..).1 h).elim
  | cons start later =>
      rw [statements, Parsed.gives_andThen_iff]
      constructor
      · rintro ⟨s, left, _, hs, h⟩
        cases left with
        | nil =>
            obtain ⟨rfl, rfl⟩ := (Parsed.gives_ok ..).1 h
            exact .inr (.inl ⟨s, hs, rfl, rfl⟩)
        | cons t ts =>
            dsimp only at h
            split at h
            · next ht =>
              rw [Parsed.gives_within, Parsed.gives_map] at h
              obtain ⟨more, hm, rfl⟩ := h
              exact .inr (.inr ⟨s, t, ts, more, hs, ht, hm, rfl⟩)
            · exact ((Parsed.gives_fail ..).1 h).elim
      · rintro (⟨h, -⟩ | ⟨s, hs, rfl, rfl⟩ | ⟨s, t, ts, more, hs, ht, hm, rfl⟩)
        · cases h
        · exact ⟨s, [], hs.length_le, hs, (Parsed.gives_ok ..).2 ⟨rfl, rfl⟩⟩
        · refine ⟨s, t :: ts, hs.length_le, hs, ?_⟩
          dsimp only
          rw [if_pos ht, Parsed.gives_within, Parsed.gives_map]
          exact ⟨more, hm, rfl⟩

theorem program_eq_ok_iff {p : Program} :
    program file tokens = .ok p ↔
      ∃ rest, (statements file (dropNewlines tokens)).Gives p.statements rest := by
  rw [program]
  obtain ⟨r, left, hle⟩ := statements file (dropNewlines tokens)
  obtain ⟨ss⟩ := p
  cases r with
  | error e => simp [Except.map]
  | ok found => simp [Except.map]

end Parser

end GotoScript
