import GotoScript.Proofs.Parsing.Positions

/-!
# The lines of tokens

A line end is a token of its own, and no statement has one inside. Between two line ends there is one
statement, or none, and a statement stands where the first token of its line stands.

* `Grammar.OneLine` : tokens without a line end; `Grammar.Sentence.oneLine` : those of a statement;
* `Token.lines` : the lines of tokens that are not blank; `Grammar.Derives.sentences` : each of them is a statement;
* `Token.Above` : a token stands on no later line than another, and on an earlier one if it ends its line;
  `Grammar.Derives.pairwise_line` : where tokens stand so, the statements stand on lines of their own, in
  their order.
-/

namespace GotoScript

namespace Grammar

/-! ## Tokens of one line -/

/-- None of the tokens ends a line. -/
def OneLine (ts : List Token) : Prop :=
  ∀ t ∈ ts, t.isNewline = false

theorem OneLine.nil : OneLine [] :=
  List.forall_mem_nil _

theorem OneLine.cons {t : Token} {ts : List Token} (ht : t.isNewline = false) (hts : OneLine ts) :
    OneLine (t :: ts) :=
  List.forall_mem_cons.2 ⟨ht, hts⟩

theorem OneLine.append {ts ss : List Token} (hts : OneLine ts) (hss : OneLine ss) : OneLine (ts ++ ss) :=
  List.forall_mem_append.2 ⟨hts, hss⟩

theorem isNewline_of_mem {t : Token} {texts : List String} (h : t.text ∈ texts)
    (htexts : Token.newline ∉ texts) : t.isNewline = false := by
  apply decide_eq_false
  intro hnewline
  exact htexts (hnewline ▸ h)

theorem isNewline_of_text {t : Token} {text : String} (h : t.text = text) (htext : Token.newline ≠ text) :
    t.isNewline = false :=
  isNewline_of_mem (List.mem_singleton.2 h) (mt List.mem_singleton.1 htext)

/-- A line end starts with no other kind of character. -/
theorem isNewline_of_head {t : Token} {kind : Char → Bool} (h : ∃ c, t.firstChar? = some c ∧ kind c)
    (hkind : kind '\n' = false) : t.isNewline = false := by
  have hno := Parser.text_notMem_of_head [Token.newline] h (by simp [Token.newline, hkind])
  exact decide_eq_false (mt List.mem_singleton.2 hno)

theorem isNewline_of_isWord {t : Token} (h : t.isWord) : t.isNewline = false :=
  isNewline_of_head (Parser.isWord_head h) (by decide)

theorem isNewline_of_isDigits {t : Token} (h : Literal.isDigits t.text) : t.isNewline = false :=
  isNewline_of_head (Parser.isDigits_head h) (by decide)

theorem Entity.oneLine {ts : List Token} {e : Expr} (h : Entity ts e) : OneLine ts := by
  cases h with
  | bool h => exact .cons (isNewline_of_mem (List.mem_pair.2 h) (by decide)) .nil
  | null h => exact .cons (isNewline_of_text h (by decide)) .nil
  | system h hname => exact .cons (isNewline_of_text h (by decide)) (.cons (isNewline_of_isWord hname) .nil)
  | text h _ => exact .cons (isNewline_of_head (Parser.isQuoted_head h) (by decide)) .nil
  | serviceRoot h => exact .cons (isNewline_of_text h (by decide)) .nil
  | var h _ => exact .cons (isNewline_of_isWord h) .nil
  | int h _ => exact .cons (isNewline_of_isDigits h) .nil
  | float hw hp hd =>
      exact .cons (isNewline_of_isDigits hw)
        (.cons (isNewline_of_text hp (by decide)) (.cons (isNewline_of_isDigits hd) .nil))
  | fraction hp hd => exact .cons (isNewline_of_text hp (by decide)) (.cons (isNewline_of_isDigits hd) .nil)

theorem newline_notMem_tiers : ∀ tier ∈ Parser.tiers, Token.newline ∉ tier := by
  decide

mutual

theorem Chain.oneLine {tiers : List (List String)} {ts : List Token} {e : Expr}
    (htiers : ∀ tier ∈ tiers, Token.newline ∉ tier) (h : Chain tiers ts e) : OneLine ts := by
  match h with
  | .unary hu => exact hu.oneLine
  | .single hc => exact hc.oneLine (List.forall_mem_cons.1 htiers).2
  | .joined hc hl _ =>
      obtain ⟨hoperators, htighter⟩ := List.forall_mem_cons.1 htiers
      exact (hc.oneLine htighter).append (hl.oneLine hoperators htighter)

theorem Links.oneLine {operators : List String} {tighter : List (List String)} {ls : List Token}
    {more : List (Token × Expr)} (hoperators : Token.newline ∉ operators)
    (htighter : ∀ tier ∈ tighter, Token.newline ∉ tier) (h : Links operators tighter ls more) : OneLine ls := by
  match h with
  | .nil => exact .nil
  | .cons hop hc hl =>
      exact .append (.cons (isNewline_of_mem hop hoperators) (hc.oneLine htighter))
        (hl.oneLine hoperators htighter)

theorem Unary.oneLine {ts : List Token} {e : Expr} (h : Unary ts e) : OneLine ts := by
  match h with
  | .not ht hu => exact .cons (isNewline_of_text ht (by decide)) hu.oneLine
  | .negate ht hu => exact .cons (isNewline_of_text ht (by decide)) hu.oneLine
  | .suffixed hs => exact hs.oneLine

theorem Suffixed.oneLine {ts : List Token} {e : Expr} (h : Suffixed ts e) : OneLine ts := by
  match h with
  | .entity hent _ hs => exact hent.oneLine.append hs.oneLine
  | .group hl hc hr hs =>
      exact .append (.cons (isNewline_of_text hl (by decide)) (hc.oneLine newline_notMem_tiers))
        (.cons (isNewline_of_text hr (by decide)) hs.oneLine)

theorem Suffixes.oneLine {root : Expr} {ss : List Token} {e : Expr} (h : Suffixes root ss e) : OneLine ss := by
  match h with
  | .nil => exact .nil
  | .field hp hn hs =>
      exact .cons (isNewline_of_text hp (by decide)) (.cons (isNewline_of_isWord hn) hs.oneLine)
  | .index hl hc hr hs =>
      exact .append (.cons (isNewline_of_text hl (by decide)) (hc.oneLine newline_notMem_tiers))
        (.cons (isNewline_of_text hr (by decide)) hs.oneLine)
  | .call hl ha hr hs =>
      exact .append (.cons (isNewline_of_text hl (by decide)) ha.oneLine)
        (.cons (isNewline_of_text hr (by decide)) hs.oneLine)

theorem Arguments.oneLine {ts : List Token} {args : List Expr} (h : Arguments ts args) : OneLine ts := by
  match h with
  | .nil => exact .nil
  | .cons hc hl => exact (hc.oneLine newline_notMem_tiers).append hl.oneLine

theorem MoreArguments.oneLine {ls : List Token} {args : List Expr} (h : MoreArguments ls args) :
    OneLine ls := by
  match h with
  | .nil => exact .nil
  | .cons hcomma hc hl =>
      exact .append (.cons (isNewline_of_text hcomma (by decide)) (hc.oneLine newline_notMem_tiers)) hl.oneLine

end

theorem Label.oneLine {ts : List Token} {name : String} (h : Label ts name) : OneLine ts := by
  cases h with
  | mk hs hn => exact .cons (isNewline_of_text hs (by decide)) (.cons (isNewline_of_isWord hn) .nil)

theorem Otherwise.oneLine {ts : List Token} {name : Option String} (h : Otherwise ts name) : OneLine ts := by
  cases h with
  | absent => exact .nil
  | label hw hl => exact .cons (isNewline_of_text hw (by decide)) hl.oneLine
  | gotoLabel hw hg hl =>
      exact .cons (isNewline_of_text hw (by decide)) (.cons (isNewline_of_text hg (by decide)) hl.oneLine)

theorem Line.oneLine {ts : List Token} {action : Action} (h : Line ts action) : OneLine ts := by
  have hexpression {ts : List Token} {e : Expr} (h : Expression ts e) : OneLine ts :=
    Chain.oneLine newline_notMem_tiers h
  cases h with
  | label hl => exact hl.oneLine
  | branch hw hc hg ht ho =>
      have hcondition := OneLine.cons (isNewline_of_text hw (by decide)) (hexpression hc)
      have hgoto := OneLine.cons (isNewline_of_text hg (by decide)) ht.oneLine
      exact (hcondition.append hgoto).append ho.oneLine
  | jump hw hl => exact .cons (isNewline_of_text hw (by decide)) hl.oneLine
  | print hw he => exact .cons (isNewline_of_text hw (by decide)) (hexpression he)
  | assign _ hv hs he => exact (hexpression hv).append (.cons (isNewline_of_text hs (by decide)) (hexpression he))
  | evaluate _ he => exact hexpression he

theorem Sentence.oneLine {ts : List Token} {s : Statement} (h : Sentence ts s) : OneLine ts := by
  cases h with
  | mk hl => exact hl.oneLine

end Grammar

/-! ## Lines -/

/-- The tokens between line ends, without the blank lines. -/
def Token.lines (ts : List Token) : List (List Token) :=
  (ts.splitOnP Token.isNewline).filter fun line => !line.isEmpty

namespace Token

variable {n : Token} {ns ts : List Token}

theorem lines_newlines (hn : ∀ n ∈ ns, n.isNewline) (ts : List Token) : lines (ns ++ ts) = lines ts := by
  induction ns with
  | nil => rfl
  | cons n ns ih =>
      obtain ⟨hfirst, hmore⟩ := List.forall_mem_cons.1 hn
      have hsplit := List.splitOnP_append_cons_of_forall_mem (p := isNewline) Grammar.OneLine.nil n hfirst (ns ++ ts)
      rw [List.nil_append] at hsplit
      rw [← ih hmore, lines, List.cons_append, hsplit, List.filter_cons_of_neg (by simp), lines]

theorem lines_append (hts : Grammar.OneLine ts) (hne : ts ≠ []) (hn : n.isNewline) (rest : List Token) :
    lines (ts ++ n :: rest) = ts :: lines rest := by
  rw [lines, List.splitOnP_append_cons_of_forall_mem hts n hn, List.filter_cons_of_pos (by simp [hne]), lines]

theorem lines_of_oneLine (hts : Grammar.OneLine ts) (hne : ts ≠ []) : lines ts = [ts] := by
  rw [lines, List.splitOnP_eq_singleton hts, List.filter_cons_of_pos (by simp [hne]), List.filter_nil]

theorem subset_of_mem_splitOnP (ts : List Token) : ∀ line ∈ ts.splitOnP isNewline, line ⊆ ts := by
  induction ts with
  | nil => simp
  | cons t ts ih =>
      intro line hline
      rw [List.splitOnP_cons_eq_if_modifyHead] at hline
      split at hline
      case isTrue =>
        rcases List.mem_cons.1 hline with rfl | hline
        · exact List.nil_subset _
        · exact List.subset_cons_of_subset t (ih line hline)
      case isFalse =>
        obtain ⟨first, more, hsplit⟩ := List.exists_cons_of_ne_nil (List.splitOnP_ne_nil isNewline ts)
        rw [hsplit] at hline ih
        obtain ⟨hfirst, hmore⟩ := List.forall_mem_cons.1 ih
        rcases List.mem_cons.1 hline with rfl | hline
        · exact List.cons_subset_cons t hfirst
        · exact List.subset_cons_of_subset t (hmore line hline)

theorem subset_of_mem_lines {line : List Token} (h : line ∈ lines ts) : line ⊆ ts :=
  subset_of_mem_splitOnP ts line (List.mem_of_mem_filter h)

end Token

namespace Grammar

theorem Sentence.ne_nil {ts : List Token} {s : Statement} (h : Sentence ts s) : ts ≠ [] := by
  cases h with
  | mk _ => exact List.cons_ne_nil _ _

/-- A statement at the start of tokens is their first line. -/
theorem Sentence.lines_append {ts ns : List Token} {s : Statement} (h : Sentence ts s)
    (hn : ∀ n ∈ ns, n.isNewline) (hne : ns ≠ []) (rest : List Token) :
    Token.lines (ts ++ ns ++ rest) = ts :: Token.lines rest := by
  obtain ⟨n, ns, rfl⟩ := List.exists_cons_of_ne_nil hne
  obtain ⟨hfirst, hmore⟩ := List.forall_mem_cons.1 hn
  rw [List.append_assoc, List.cons_append, Token.lines_append h.oneLine h.ne_nil hfirst,
    Token.lines_newlines hmore]

theorem Lines.sentences {ts : List Token} {statements : List Statement} (h : Lines ts statements) :
    List.Forall₂ Sentence (Token.lines ts) statements := by
  induction h with
  | @last ts ns s h hn =>
      cases ns with
      | nil =>
          rw [List.append_nil, Token.lines_of_oneLine h.oneLine h.ne_nil]
          exact .cons h .nil
      | cons n ns =>
          have hlines := h.lines_append hn (List.cons_ne_nil n ns) []
          rw [List.append_nil] at hlines
          rw [hlines]
          exact .cons h .nil
  | cons h hn hne _ ih =>
      rw [h.lines_append hn hne]
      exact .cons h ih

/-- The statements of a program are the lines of its tokens, without the blank ones. -/
theorem Derives.sentences {ts : List Token} {p : Program} (h : Derives ts p) :
    List.Forall₂ Sentence (Token.lines ts) p.statements := by
  cases h with
  | blank hn =>
      have hlines := Token.lines_newlines hn []
      rw [List.append_nil] at hlines
      rw [hlines]
      exact .nil
  | lines hn hl =>
      rw [Token.lines_newlines hn]
      exact hl.sentences

end Grammar

/-! ## The order of statements -/

/-- The first token stands on no later line than the second, and on an earlier one if it ends its line. -/
def Token.Above (t u : Token) : Prop :=
  t.position.line ≤ u.position.line ∧ (t.isNewline → t.position.line < u.position.line)

namespace Grammar

theorem Sentence.position_mem {ts : List Token} {s : Statement} (h : Sentence ts s) :
    ∃ t ∈ ts, s.position = t.position := by
  cases h with
  | @mk start => exact ⟨start, List.mem_cons_self, rfl⟩

theorem Lines.position_mem {ts : List Token} {statements : List Statement} (h : Lines ts statements) :
    ∀ s ∈ statements, ∃ t ∈ ts, s.position = t.position := by
  intro s hs
  have hsubset := (Derives.lines (List.forall_mem_nil _) h).positions_subset
  have hposition : s.position ∈ Program.positions ⟨statements⟩ :=
    List.mem_flatMap.2 ⟨s, hs, List.mem_cons_self⟩
  obtain ⟨t, ht, hts⟩ := List.mem_map.1 (hsubset hposition)
  exact ⟨t, ht, hts.symm⟩

/-- Where the tokens stand in order, so do the statements, and no two of them on one line: there is a line end
between them. -/
theorem Lines.pairwise_line {ts : List Token} {statements : List Statement} (h : Lines ts statements)
    (hts : ts.Pairwise Token.Above) :
    statements.Pairwise fun s s' => s.position.line < s'.position.line := by
  induction h with
  | last => exact List.pairwise_singleton _ _
  | @cons ts ns ls s more h hn hne hl ih =>
      obtain ⟨hbefore, hls, hacross⟩ := List.pairwise_append.1 hts
      obtain ⟨-, -, hend⟩ := List.pairwise_append.1 hbefore
      refine .cons (fun s' hs' => ?_) (ih hls)
      obtain ⟨n, ns, rfl⟩ := List.exists_cons_of_ne_nil hne
      obtain ⟨t, ht, hs⟩ := h.position_mem
      obtain ⟨u, hu, hs'⟩ := hl.position_mem s' hs'
      have hdown := (hacross n (by simp) u hu).2 (hn n List.mem_cons_self)
      rw [hs, hs']
      exact UInt32.lt_of_le_of_lt (hend t ht n List.mem_cons_self).1 hdown

theorem Derives.pairwise_line {ts : List Token} {p : Program} (h : Derives ts p)
    (hts : ts.Pairwise Token.Above) :
    p.statements.Pairwise fun s s' => s.position.line < s'.position.line := by
  cases h with
  | blank => exact .nil
  | lines _ hl => exact hl.pairwise_line (List.pairwise_append.1 hts).2.1

end Grammar

end GotoScript
