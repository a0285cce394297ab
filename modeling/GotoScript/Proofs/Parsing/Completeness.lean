import GotoScript.Proofs.Parsing.Outcomes

/-!
# What is derived the parser gives

A derivation says where an expression ends, while the parser takes all that it can. The two agree
where the tokens after the expression cannot continue it: `Stops tiers rest` says that `rest` starts
with no operator of `tiers` and with nothing that is applied to an expression. Operators of one tier
never continue an operand of a tighter one (`Separated`), and no bracket, comma, line end or keyword of
a statement continues any expression.
-/

namespace GotoScript

theorem NoneAhead.mono {texts texts' : List String} {tokens : List Token}
    (h : NoneAhead texts' tokens) (hsub : ∀ s ∈ texts, s ∈ texts') : NoneAhead texts tokens :=
  fun t ht hs => h t ht (hsub _ hs)

namespace Grammar

variable (file : String) {rest : List Token}

/-! ## The tokens after an expression -/

/-- The tokens do not continue an expression with operators of `tiers`. -/
def Stops (tiers : List (List String)) (rest : List Token) : Prop :=
  NoneAhead (openers ++ tiers.flatten) rest

theorem Stops.openers {tiers : List (List String)} (h : Stops tiers rest) :
    NoneAhead Grammar.openers rest :=
  h.mono fun _ hs => List.mem_append_left _ hs

theorem Stops.operators {operators : List String} {tighter : List (List String)}
    (h : Stops (operators :: tighter) rest) : NoneAhead operators rest :=
  h.mono fun _ hs => List.mem_append_right _ (by simp [hs])

theorem Stops.tighter {operators : List String} {tighter : List (List String)}
    (h : Stops (operators :: tighter) rest) : Stops tighter rest :=
  h.mono fun s hs => by
    rw [List.mem_append] at hs ⊢
    exact hs.imp_right fun hs => by simp [hs]

/-- The operators of a tier continue neither operands nor what is applied to them. -/
def Separated : List (List String) → Prop
  | [] => True
  | operators :: tighter =>
    (∀ op ∈ operators, op ∉ Grammar.openers ++ tighter.flatten) ∧ Separated tighter

theorem separated_tiers : Separated Parser.tiers := by
  refine ⟨?_, ?_, ?_, ?_, ?_, ?_, trivial⟩ <;> decide

/-- The texts that can follow an expression. -/
def followers : List String := [")", "]", ",", "=", "goto", Token.newline]

theorem stops_of_follower (t : Token) (ts : List Token) (h : t.text ∈ followers) :
    Stops Parser.tiers (t :: ts) := by
  have hdisjoint : ∀ s ∈ followers, s ∉ Grammar.openers ++ Parser.tiers.flatten := by decide
  exact (noneAhead_cons ..).2 (hdisjoint _ h)

/-- Links start with an operator of their tier, if there are any. -/
theorem Links.stops {operators : List String} {tighter : List (List String)} {ls : List Token}
    {more : List (Token × Expr)} (h : Links operators tighter ls more)
    (hsep : Separated (operators :: tighter)) (hrest : Stops tighter rest) :
    Stops tighter (ls ++ rest) := by
  cases h with
  | nil => exact hrest
  | cons hop _ _ => exact (noneAhead_cons ..).2 (hsep.1 _ hop)

/-- After an argument there is a comma or the closing parenthesis. -/
theorem MoreArguments.stops {ls : List Token} {args : List Expr} (h : MoreArguments ls args)
    {r : Token} (hr : r.text = ")") (rest : List Token) : Stops Parser.tiers (ls ++ r :: rest) := by
  cases h with
  | nil => exact stops_of_follower r rest (by rw [hr]; decide)
  | cons hc _ _ => exact stops_of_follower _ _ (by rw [hc]; decide)

/-! ## The first token of an expression -/

theorem Entity.head {ts : List Token} {e : Expr} (h : Entity ts e) :
    ∃ t us, ts = t :: us ∧ t.text ∉ ["not", "-", "(", ")", Token.newline] := by
  cases h with
  | @bool t ht =>
      refine ⟨t, [], rfl, ?_⟩
      rcases ht with ht | ht <;> rw [ht] <;> decide
  | @null t ht => exact ⟨t, [], rfl, by rw [ht]; decide⟩
  | @system sign name ht hname => exact ⟨sign, [name], rfl, by rw [ht]; decide⟩
  | @text t value hq hvalue =>
      exact ⟨t, [], rfl, Parser.text_notMem_of_head _ (Parser.isQuoted_head hq) (by decide)⟩
  | @serviceRoot t ht => exact ⟨t, [], rfl, by rw [ht]; decide⟩
  | @var t hword hfree =>
      have hnot : t.text ≠ "not" := fun ht => hfree (by rw [ht]; decide)
      have hmark := Parser.text_notMem_of_head ["-", "(", ")", Token.newline]
        (Parser.isWord_head hword) (by decide)
      refine ⟨t, [], rfl, ?_⟩
      rw [List.mem_cons, not_or]
      exact ⟨hnot, hmark⟩
  | @int t _ hdigits hvalue =>
      exact ⟨t, [], rfl, Parser.text_notMem_of_head _ (Parser.isDigits_head hdigits) (by decide)⟩
  | @float whole point d hdigits hp hd =>
      exact ⟨whole, _, rfl, Parser.text_notMem_of_head _ (Parser.isDigits_head hdigits) (by decide)⟩
  | @fraction point d hp hd => exact ⟨point, [d], rfl, by rw [hp]; decide⟩

theorem Suffixed.head {ts : List Token} {e : Expr} (h : Suffixed ts e) :
    ∃ t us, ts = t :: us ∧ t.text ∉ ["not", "-", ")", Token.newline] := by
  cases h with
  | @entity us ss root _ hent _ _ =>
      obtain ⟨t, us, rfl, ht⟩ := hent.head
      exact ⟨t, us ++ ss, rfl, fun hmem => ht (by simp_all)⟩
  | @group l r us ss root _ hl _ _ _ => exact ⟨l, _, rfl, by rw [hl]; decide⟩

theorem Unary.head {ts : List Token} {e : Expr} (h : Unary ts e) :
    ∃ t us, ts = t :: us ∧ t.text ∉ [")", Token.newline] := by
  cases h with
  | @not t us e ht _ => exact ⟨t, us, rfl, by rw [ht]; decide⟩
  | @negate t us e ht _ => exact ⟨t, us, rfl, by rw [ht]; decide⟩
  | suffixed hs =>
      obtain ⟨t, us, rfl, ht⟩ := hs.head
      exact ⟨t, us, rfl, fun hmem => ht (by simp_all)⟩

/-- An expression has a first token, which neither closes a bracket nor ends a line. -/
theorem Chain.head {tiers : List (List String)} {ts : List Token} {e : Expr} (h : Chain tiers ts e) :
    ∃ t us, ts = t :: us ∧ t.text ∉ [")", Token.newline] := by
  match h with
  | .unary hu => exact hu.head
  | .single hc => exact hc.head
  | @Chain.joined _ _ _ ls _ _ hc _ _ =>
      obtain ⟨t, us, rfl, ht⟩ := hc.head
      exact ⟨t, us ++ ls, rfl, ht⟩

/-! ## Expressions -/

mutual

theorem Chain.gives {tiers : List (List String)} {ts : List Token} {e : Expr} (h : Chain tiers ts e)
    {rest : List Token} (hsep : Separated tiers) (hrest : Stops tiers rest) :
    (Parser.chain file tiers (ts ++ rest)).Gives e rest := by
  match h with
  | .unary hu => exact Parser.chain_nil_gives_iff.2 (hu.gives hrest.openers)
  | .single hc =>
      refine Parser.chain_cons_gives_iff.2 ⟨_, _, [], hc.gives hsep.2 hrest.tighter, ?_, rfl⟩
      exact Parser.chainRest_gives_iff.2 (.inl ⟨rfl, rfl, hrest.operators⟩)
  | @Chain.joined _ _ _ ls first _ hc hl hne =>
      rw [List.append_assoc, Parser.chain_cons_gives_iff, ← Parser.chainOf_of_ne_nil _ hne]
      have hfirst := hc.gives hsep.2 (hl.stops hsep hrest.tighter)
      exact ⟨first, ls ++ rest, _, hfirst, hl.gives hsep hrest, rfl⟩

theorem Links.gives {operators : List String} {tighter : List (List String)} {ls : List Token}
    {more : List (Token × Expr)} (h : Links operators tighter ls more) {rest : List Token}
    (hsep : Separated (operators :: tighter)) (hrest : Stops (operators :: tighter) rest) :
    (Parser.chainRest file operators tighter (ls ++ rest)).Gives more rest := by
  match h with
  | .nil => exact Parser.chainRest_gives_iff.2 (.inl ⟨rfl, rfl, hrest.operators⟩)
  | @Links.cons _ _ op ts ls e _ hop hc hl =>
      have hoperand := hc.gives hsep.2 (hl.stops hsep hrest.tighter)
      rw [List.cons_append, List.cons_append, List.append_assoc, Parser.chainRest_gives_iff]
      exact .inr ⟨op, _, e, ls ++ rest, _, rfl, hop, hoperand, hl.gives hsep hrest, rfl⟩

theorem Unary.gives {ts : List Token} {e : Expr} (h : Unary ts e) {rest : List Token}
    (hrest : NoneAhead Grammar.openers rest) : (Parser.unary file (ts ++ rest)).Gives e rest := by
  match h with
  | @Unary.not t _ _ ht hu =>
      exact Parser.unary_gives_iff.2 (.inl ⟨t, _, _, rfl, ht, hu.gives hrest, rfl⟩)
  | @Unary.negate t _ _ ht hu =>
      exact Parser.unary_gives_iff.2 (.inr (.inl ⟨t, _, _, rfl, ht, hu.gives hrest, rfl⟩))
  | .suffixed hs =>
      refine Parser.unary_gives_iff.2 (.inr (.inr ⟨?_, hs.gives hrest⟩))
      obtain ⟨t, us, rfl, ht⟩ := hs.head
      exact (noneAhead_cons ..).2 fun hmem => ht (by simp_all)

theorem Suffixed.gives {ts : List Token} {e : Expr} (h : Suffixed ts e) {rest : List Token}
    (hrest : NoneAhead Grammar.openers rest) : (Parser.suffixed file (ts ++ rest)).Gives e rest := by
  match h with
  | @Suffixed.entity us ss root _ hent hw hs =>
      rw [List.append_assoc, Parser.suffixed_gives_iff]
      refine ⟨root, ss ++ rest, Parser.primary_gives_iff.2 (.inr ⟨?_, ?_⟩), hs.gives hrest⟩
      · obtain ⟨t, us, rfl, ht⟩ := hent.head
        exact (noneAhead_cons ..).2 fun hmem => ht (by simp_all)
      · refine Parser.entity_gives_of_entity hent fun hwhole => ?_
        cases ss with
        | nil => exact hrest.mono (by decide)
        | cons t ss => simpa using hw hwhole
  | @Suffixed.group l r us ss root _ hl hc hr hs =>
      rw [Parser.suffixed_gives_iff]
      refine ⟨root, ss ++ rest, Parser.primary_gives_iff.2 (.inl ?_), hs.gives hrest⟩
      have hinner := hc.gives separated_tiers
        (stops_of_follower r (ss ++ rest) (by rw [hr]; decide))
      exact ⟨l, us ++ r :: (ss ++ rest), r, by simp, hl, hinner, hr⟩

theorem Suffixes.gives {root : Expr} {ss : List Token} {e : Expr} (h : Suffixes root ss e)
    {rest : List Token} (hrest : NoneAhead Grammar.openers rest) :
    (Parser.suffixes file root (ss ++ rest)).Gives e rest := by
  match h with
  | .nil => exact Parser.suffixes_gives_iff.2 (.inl ⟨rfl, rfl, hrest⟩)
  | @Suffixes.field point name _ _ _ hp hn hs =>
      exact Parser.suffixes_gives_iff.2
        (.inr (.inl ⟨point, name, _, rfl, hp, hn, hs.gives hrest⟩))
  | @Suffixes.index l r us ss _ key _ hl hc hr hs =>
      have hkey := hc.gives separated_tiers
        (stops_of_follower r (ss ++ rest) (by rw [hr]; decide))
      refine Parser.suffixes_gives_iff.2 (.inr (.inr (.inl ?_)))
      exact ⟨l, us ++ r :: (ss ++ rest), key, r, ss ++ rest, by simp, hl, hkey, hr, hs.gives hrest⟩
  | @Suffixes.call l r us ss _ _ args hl ha hr hs =>
      refine Parser.suffixes_gives_iff.2 (.inr (.inr (.inr ?_)))
      exact ⟨l, us ++ r :: (ss ++ rest), args, ss ++ rest, by simp, hl, ha.gives hr, hs.gives hrest⟩

theorem Arguments.gives {ts : List Token} {args : List Expr} (h : Arguments ts args) {r : Token}
    {rest : List Token} (hr : r.text = ")") :
    (Parser.arguments file (ts ++ r :: rest)).Gives args rest := by
  match h with
  | .nil => exact Parser.arguments_gives_iff.2 (.inl ⟨r, rfl, hr, rfl⟩)
  | @Arguments.cons us ls e es hc hl =>
      have hfirst := hc.gives separated_tiers (hl.stops hr rest)
      rw [List.append_assoc, Parser.arguments_gives_iff]
      refine .inr ⟨?_, e, ls ++ r :: rest, es, hfirst, hl.gives hr, rfl⟩
      obtain ⟨t, us, rfl, ht⟩ := hc.head
      exact (noneAhead_cons ..).2 fun hmem => ht (by simp_all)

theorem MoreArguments.gives {ls : List Token} {args : List Expr} (h : MoreArguments ls args)
    {r : Token} {rest : List Token} (hr : r.text = ")") :
    (Parser.moreArguments file (ls ++ r :: rest)).Gives args rest := by
  match h with
  | .nil => exact Parser.moreArguments_gives_iff.2 (.inl ⟨r, rfl, hr, rfl⟩)
  | @MoreArguments.cons comma us ls e es hcomma hc hl =>
      have hfirst := hc.gives separated_tiers (hl.stops hr rest)
      rw [List.cons_append, List.cons_append, List.append_assoc, Parser.moreArguments_gives_iff]
      exact .inr ⟨comma, _, e, ls ++ r :: rest, es, rfl, hcomma, hfirst, hl.gives hr, rfl⟩

end

end Grammar

end GotoScript
