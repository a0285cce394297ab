import GotoScript.Proofs.Parsing.Completeness
import GotoScript.Proofs.Parsing.Soundness

/-!
# The parser accepts exactly the programs of the grammar

Statements and programs, in both directions:

* `line_derives`, `lines_derive` : what is parsed is derived;
* `Line.gives`, `Lines.gives` : what is derived is parsed, at the end of a line;
* `parses_iff_derives` : the parser gives a program exactly when the tokens derive it.
-/

namespace GotoScript.Grammar

variable {file : String} {rest : List Token}

/-! ## Statements that are parsed -/

/-- An expression that is parsed starts with the first of the tokens. -/
theorem expression_derives {start : Token} {tokens : List Token} {e : Expr}
    (h : (Parser.expression file (start :: tokens)).Gives e rest) :
    ∃ used, tokens = used ++ rest ∧ Expression (start :: used) e := by
  obtain ⟨used, htok, hu⟩ := chain_derives Parser.tiers (start :: tokens) h
  obtain ⟨t, us, rfl, -⟩ := hu.head
  rw [List.cons_append, List.cons.injEq] at htok
  obtain ⟨rfl, rfl⟩ := htok
  exact ⟨us, rfl, hu⟩

theorem line_derives {start : Token} {tokens : List Token} {act : Action}
    (h : (Parser.action file start tokens).Gives act rest) :
    ∃ used, tokens = used ++ rest ∧ Line (start :: used) act := by
  rcases Parser.action_gives_iff.1 h with ⟨-, used, name, htok, hl, rfl⟩ | ⟨hs, hb⟩ |
    ⟨hs, used, name, rfl, hl, rfl⟩ | ⟨hs, e, he, rfl⟩ | ⟨hs, ha⟩
  · have hline := Line.label hl
    cases hl with
    | @mk sign word _ _ =>
        cases htok
        exact ⟨[word], rfl, hline⟩
  · obtain ⟨condition, goto, ts, os, whenTrue, whenFalse, hc, hg, ht, ho, -, rfl⟩ :=
      Parser.branch_gives_iff.1 hb
    obtain ⟨cs, rfl, hc'⟩ := chain_derives Parser.tiers tokens hc
    exact ⟨cs ++ goto :: ts ++ os, by simp, .branch hs hc' hg ht ho⟩
  · exact ⟨used, rfl, .jump hs hl⟩
  · obtain ⟨used, rfl, hu⟩ := chain_derives Parser.tiers tokens he
    exact ⟨used, rfl, .print hs hu⟩
  · rcases Parser.assignment_gives_iff.1 ha with
      ⟨e, he, -, rfl⟩ | ⟨name, sign, ts, e, hv, hsign, he, rfl⟩
    · obtain ⟨used, rfl, hu⟩ := expression_derives he
      exact ⟨used, rfl, .evaluate ((noneAhead_cons ..).2 hs) hu⟩
    · obtain ⟨vs, rfl, hv'⟩ := expression_derives hv
      obtain ⟨us, rfl, hu⟩ := chain_derives Parser.tiers ts he
      refine ⟨vs ++ sign :: us, by simp, ?_⟩
      exact .assign ((noneAhead_cons ..).2 hs) hv' hsign hu

theorem sentence_derives {tokens : List Token} {s : Statement}
    (h : (Parser.statement file tokens).Gives s rest) :
    ∃ used, tokens = used ++ rest ∧ Sentence used s := by
  obtain ⟨start, ts, act, rfl, ha, rfl⟩ := Parser.statement_gives_iff.1 h
  obtain ⟨used, rfl, hu⟩ := line_derives ha
  exact ⟨start :: used, rfl, .mk hu⟩

/-! ## Statements that are derived -/

/-- The tokens start with a line end, or there are none. -/
def AtLineEnd (tokens : List Token) : Prop :=
  ∀ t ∈ tokens.head?, t.isNewline

theorem AtLineEnd.noneAhead (h : AtLineEnd rest) (texts : List String)
    (hno : Token.newline ∉ texts) : NoneAhead texts rest := by
  intro t ht hmem
  have hnew := h t ht
  rw [Token.isNewline, decide_eq_true_eq] at hnew
  exact hno (hnew ▸ hmem)

theorem AtLineEnd.stops (h : AtLineEnd rest) : Stops Parser.tiers rest :=
  h.noneAhead _ (by decide)

theorem Line.gives {start : Token} {ts : List Token} {act : Action} (h : Line (start :: ts) act)
    (hrest : AtLineEnd rest) : (Parser.action file start (ts ++ rest)).Gives act rest := by
  generalize htok : start :: ts = tokens at h
  rw [Parser.action_gives_iff]
  cases h with
  | @label _ name hl =>
      subst htok
      refine .inl ⟨?_, start :: ts, name, rfl, hl, rfl⟩
      cases hl with
      | mk hs _ => exact hs
  | @branch word goto cs us os condition whenTrue whenFalse hw hc hg ht ho =>
      simp only [List.cons_append, List.cons.injEq] at htok
      obtain ⟨rfl, rfl⟩ := htok
      have hstop := stops_of_follower goto (us ++ (os ++ rest)) (by rw [hg]; decide)
      refine .inr (.inl ⟨hw, Parser.branch_gives_iff.2 ?_⟩)
      refine ⟨condition, goto, us, os, whenTrue, whenFalse, ?_, hg, ht, ho, ?_, rfl⟩
      · rw [show cs ++ goto :: us ++ os ++ rest = cs ++ goto :: (us ++ (os ++ rest)) by simp]
        exact hc.gives file separated_tiers hstop
      · exact fun _ => hrest.noneAhead _ (by decide)
  | @jump word us name hw hl =>
      cases htok
      exact .inr (.inr (.inl ⟨hw, ts, name, rfl, hl, rfl⟩))
  | @print word us e hw he =>
      cases htok
      exact .inr (.inr (.inr (.inl ⟨hw, e, he.gives file separated_tiers hrest.stops, rfl⟩)))
  | @assign sign vs us name e hf hv hs he =>
      have hstop := stops_of_follower sign (us ++ rest) (by rw [hs]; decide)
      have hvar := hv.gives file separated_tiers hstop
      obtain ⟨t, vs, rfl, -⟩ := hv.head
      simp only [List.cons_append, List.cons.injEq] at htok
      obtain ⟨rfl, rfl⟩ := htok
      refine .inr (.inr (.inr (.inr ⟨(noneAhead_cons ..).1 hf, ?_⟩)))
      refine Parser.assignment_gives_iff.2 (.inr ⟨name, sign, us ++ rest, e, ?_, hs, ?_, rfl⟩)
      · rw [List.append_assoc]
        exact hvar
      · exact he.gives file separated_tiers hrest.stops
  | @evaluate us e hf he =>
      subst htok
      refine .inr (.inr (.inr (.inr ⟨(noneAhead_cons ..).1 hf, ?_⟩)))
      refine Parser.assignment_gives_iff.2 (.inl ⟨e, ?_, hrest.noneAhead _ (by decide), rfl⟩)
      exact he.gives file separated_tiers hrest.stops

theorem Sentence.gives {ts : List Token} {s : Statement} (h : Sentence ts s)
    (hrest : AtLineEnd rest) : (Parser.statement file (ts ++ rest)).Gives s rest := by
  cases h with
  | @mk start us act hl =>
      exact Parser.statement_gives_iff.2 ⟨start, us ++ rest, act, rfl, hl.gives hrest, rfl⟩

/-! ## Programs that are parsed -/

theorem dropNewlines_split (tokens : List Token) :
    ∃ ns, tokens = ns ++ Parser.dropNewlines tokens ∧ ∀ t ∈ ns, t.isNewline := by
  refine ⟨tokens.takeWhile (·.isNewline), List.takeWhile_append_dropWhile.symm, ?_⟩
  exact List.all_eq_true.1 List.all_takeWhile

/-- Statements are parsed to the end of the tokens. -/
theorem lines_derive (tokens : List Token) {ss : List Statement}
    (h : (Parser.statements file tokens).Gives ss rest) :
    (tokens = [] ∧ ss = []) ∨ Lines tokens ss := by
  rcases Parser.statements_gives_iff.1 h with ⟨rfl, rfl, -⟩ | ⟨s, hs, rfl, -⟩ |
    ⟨s, t, ts, more, hs, ht, hm, rfl⟩
  · exact .inl ⟨rfl, rfl⟩
  · obtain ⟨used, rfl, hu⟩ := sentence_derives hs
    exact .inr (.last hu nofun)
  · have hlen := hs.length_le
    have hdrop := Parser.dropNewlines_length_le ts
    obtain ⟨used, htok, hu⟩ := sentence_derives hs
    obtain ⟨ns, hns, hnew⟩ := dropNewlines_split ts
    have hnew' : ∀ n ∈ t :: ns, n.isNewline := List.forall_mem_cons.2 ⟨ht, hnew⟩
    right
    rcases lines_derive (Parser.dropNewlines ts) hm with ⟨hnil, rfl⟩ | hl
    · rw [hnil, List.append_nil] at hns
      rw [htok, hns]
      exact .last hu hnew'
    · rw [htok, hns, ← List.cons_append, ← List.append_assoc]
      exact .cons hu hnew' (List.cons_ne_nil t ns) hl
termination_by tokens.length
decreasing_by
  rw [List.length_cons] at hlen
  omega

/-! ## Programs that are derived -/

theorem Line.head {ts : List Token} {act : Action} (h : Line ts act) :
    ∃ t us, ts = t :: us ∧ ¬ t.isNewline := by
  have hno {t : Token} (ht : t.text ≠ Token.newline) : ¬ t.isNewline := by
    rwa [Token.isNewline, decide_eq_true_eq]
  cases h with
  | label hl =>
      cases hl with
      | @mk sign name hs _ => exact ⟨sign, [name], rfl, hno (by rw [hs]; decide)⟩
  | @branch word _ _ _ _ _ _ _ hw _ _ _ _ => exact ⟨word, _, rfl, hno (by rw [hw]; decide)⟩
  | @jump word _ _ hw _ => exact ⟨word, _, rfl, hno (by rw [hw]; decide)⟩
  | @print word _ _ hw _ => exact ⟨word, _, rfl, hno (by rw [hw]; decide)⟩
  | assign _ hv _ _ =>
      obtain ⟨t, us, rfl, ht⟩ := hv.head
      exact ⟨t, _, rfl, hno fun hn => ht (by simp [hn])⟩
  | evaluate _ he =>
      obtain ⟨t, us, rfl, ht⟩ := he.head
      exact ⟨t, us, rfl, hno fun hn => ht (by simp [hn])⟩

theorem Lines.head {ts : List Token} {ss : List Statement} (h : Lines ts ss) :
    ∃ t us, ts = t :: us ∧ ¬ t.isNewline := by
  have hsentence {ts : List Token} {s : Statement} (h : Sentence ts s) :
      ∃ t us, ts = t :: us ∧ ¬ t.isNewline := by
    cases h with
    | mk hl => exact hl.head
  cases h with
  | last hs _ =>
      obtain ⟨t, us, rfl, ht⟩ := hsentence hs
      exact ⟨t, _, rfl, ht⟩
  | cons hs _ _ _ =>
      obtain ⟨t, us, rfl, ht⟩ := hsentence hs
      exact ⟨t, _, rfl, ht⟩

theorem dropNewlines_append {ns ls : List Token} (hn : ∀ t ∈ ns, t.isNewline)
    (hl : ls = [] ∨ ∃ t us, ls = t :: us ∧ ¬ t.isNewline) :
    Parser.dropNewlines (ns ++ ls) = ls := by
  rw [Parser.dropNewlines, List.dropWhile_append_of_pos hn]
  rcases hl with rfl | ⟨t, us, rfl, ht⟩
  · rfl
  · rw [List.dropWhile_cons_of_neg ht]

theorem atLineEnd_cons {n : Token} {ns : List Token} (h : n.isNewline) : AtLineEnd (n :: ns) := by
  intro t ht
  cases ht
  exact h

theorem Lines.gives {ts : List Token} {ss : List Statement} (h : Lines ts ss) :
    (Parser.statements file ts).Gives ss [] := by
  induction h with
  | @last ts ns s hs hn =>
      rw [Parser.statements_gives_iff]
      cases ns with
      | nil =>
          have hgive : (Parser.statement file (ts ++ [])).Gives s [] := hs.gives nofun
          exact .inr (.inl ⟨s, hgive, rfl, rfl⟩)
      | cons n ns =>
          obtain ⟨hfirst, hmore⟩ := List.forall_mem_cons.1 hn
          refine .inr (.inr ⟨s, n, ns, [], hs.gives (atLineEnd_cons hfirst), hfirst, ?_, rfl⟩)
          have hdrop := dropNewlines_append hmore (.inl rfl)
          rw [List.append_nil] at hdrop
          rw [hdrop, Parser.statements_gives_iff]
          exact .inl ⟨rfl, rfl, rfl⟩
  | @cons ts ns ls s more hs hn hne hl ih =>
      obtain ⟨n, ns, rfl⟩ := List.exists_cons_of_ne_nil hne
      obtain ⟨hfirst, hmore⟩ := List.forall_mem_cons.1 hn
      rw [List.append_assoc, List.cons_append, Parser.statements_gives_iff]
      refine .inr (.inr ⟨s, n, ns ++ ls, more, hs.gives (atLineEnd_cons hfirst), hfirst, ?_, rfl⟩)
      rw [dropNewlines_append hmore (.inr hl.head)]
      exact ih

/-! ## Programs -/

theorem derives_of_parses {tokens : List Token} {p : Program}
    (h : Parser.program file tokens = .ok p) : Derives tokens p := by
  obtain ⟨rest, hp⟩ := Parser.program_eq_ok_iff.1 h
  obtain ⟨ns, hns, hnew⟩ := dropNewlines_split tokens
  obtain ⟨ss⟩ := p
  rcases lines_derive (Parser.dropNewlines tokens) hp with ⟨hnil, hss⟩ | hl
  · rw [hnil, List.append_nil] at hns
    rw [show ss = [] from hss, hns]
    exact .blank hnew
  · rw [hns]
    exact .lines hnew hl

theorem Derives.parses {tokens : List Token} {p : Program} (h : Derives tokens p) :
    Parser.program file tokens = .ok p := by
  rw [Parser.program_eq_ok_iff]
  cases h with
  | @blank ns hn =>
      have hdrop := dropNewlines_append hn (.inl rfl)
      rw [List.append_nil] at hdrop
      rw [hdrop]
      exact ⟨[], Parser.statements_gives_iff.2 (.inl ⟨rfl, rfl, rfl⟩)⟩
  | @lines ns ls ss hn hl =>
      rw [dropNewlines_append hn (.inr hl.head)]
      exact ⟨[], hl.gives⟩

/-- The parser gives a program exactly when the whole sequence of tokens derives it, and a sequence
derives at most one program. -/
theorem parses_iff_derives (file : String) (tokens : List Token) (p : Program) :
    (Parser.program file tokens = .ok p ↔ Derives tokens p) ∧
      (Derives tokens p → ∀ q, Derives tokens q → q = p) := by
  refine ⟨⟨derives_of_parses, Derives.parses⟩, fun hp q hq => ?_⟩
  have hparsed : Parser.program file tokens = .ok q := hq.parses
  rw [hp.parses] at hparsed
  exact (Except.ok.inj hparsed).symm

/-- In `and and and` the word is a variable, the operator, and a variable again. -/
theorem parses_and_and_and :
    let first : Token := ⟨"and", ⟨"main", 1, 1⟩, 1⟩
    let op : Token := ⟨"and", ⟨"main", 1, 5⟩, 1⟩
    let last : Token := ⟨"and", ⟨"main", 1, 9⟩, 1⟩
    let p : Program :=
      ⟨[⟨.evaluate (.chain [.var "and", .var "and"] [op]), ⟨"main", 1, 1⟩⟩]⟩
    Parser.program "main" [first, op, last] = .ok p ∧ ∀ q, Derives [first, op, last] q → q = p := by
  intro first op last p
  have hvar (t : Token) (ht : t.text = "and") : Chain Parser.tiers.tail [t] (.var "and") := by
    have hword : t.isWord := by
      rw [Token.isWord, Parser.firstChar?_of_text ht]
      rfl
    have hent : Entity [t] (.var t.text) := .var hword (by rw [ht]; decide)
    rw [ht] at hent
    have hsuffixed : Suffixed [t] (.var "and") := .entity hent (fun _ => noneAhead_nil _) .nil
    exact .single (.single (.single (.single (.single (.unary (.suffixed hsuffixed))))))
  have hlinks : Links ["and"] Parser.tiers.tail [op, last] [(op, .var "and")] :=
    .cons (by decide) (hvar last rfl) .nil
  have hexpr : Expression [first, op, last] (.chain [.var "and", .var "and"] [op]) :=
    .joined (hvar first rfl) hlinks (List.cons_ne_nil _ _)
  have hline : Line [first, op, last] (.evaluate (.chain [.var "and", .var "and"] [op])) :=
    .evaluate ((noneAhead_cons ..).2 (by decide)) hexpr
  have hlines : Lines [first, op, last] p.statements :=
    .last (.mk hline) (fun t ht => absurd ht List.not_mem_nil)
  have hp : Derives [first, op, last] p :=
    .lines (fun t ht => absurd ht List.not_mem_nil) hlines
  obtain ⟨hiff, hunique⟩ := parses_iff_derives "main" [first, op, last] p
  exact ⟨hiff.2 hp, hunique hp⟩

end GotoScript.Grammar
