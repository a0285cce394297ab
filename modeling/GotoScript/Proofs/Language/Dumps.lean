import GotoScript.Proofs.Dumps.ReadingBack
import GotoScript.Proofs.Language.Sources
import GotoScript.Proofs.Scanning.Tokens

/-!
# Dumps of parsed programs

Names of a parsed program are words of its source, so the dump of such a program can be read back. Two source
texts have the same dump exactly if their programs differ in nothing but places and what looks alike in a dump.

* `Grammar.Spelled`, `Lexeme.spelled_of_scan` : the words among the tokens of a source are names;
* `Grammar.Chain.named`, `Grammar.Derives.readable` : so are the names in what they derive;
* `dump_eq_iff_looks_alike` : when two parsed programs have the same dump.
-/

namespace GotoScript

/-! ## Words of a source -/

/-- The words among the tokens are names. -/
def Grammar.Spelled (ts : List Token) : Prop :=
  ∀ t ∈ ts, t.isWord → IsName t.text

theorem not_isDigit_of_isAlpha {c : Char} (h : c.isAlpha) : ¬ c.isDigit := by
  simp only [Char.isAlpha, Char.isUpper, Char.isLower, Char.isDigit, Bool.or_eq_true, Bool.and_eq_true,
    decide_eq_true_eq, UInt32.le_iff_toNat_le, ge_iff_le] at h ⊢
  have hupper : 'A'.val.toNat = 65 := rfl
  have hlower : 'a'.val.toNat = 97 := rfl
  have hnine : '9'.val.toNat = 57 := rfl
  omega

theorem Token.isWordChar_of_isWord {t : Token} (h : t.isWord) :
    ∃ c, t.firstChar? = some c ∧ ¬ c.isDigit ∧ Lexeme.isWordChar c := by
  obtain ⟨c, hc, hkind⟩ := Parser.isWord_head h
  rw [Bool.or_eq_true, decide_eq_true_eq] at hkind
  refine ⟨c, hc, ?_⟩
  rcases hkind with halpha | rfl
  · exact ⟨not_isDigit_of_isAlpha halpha, by simp [Lexeme.isWordChar, Char.isAlphanum, halpha]⟩
  · decide

namespace Lexeme

/-- Only words start with a word character. -/
theorem Form.all_isWordChar {keep : Bool} {kind : Kind} {chars rest : List Char}
    (h : Form keep (some kind) chars rest) {c : Char} (hc : chars.head? = some c) (hword : isWordChar c) :
    ∀ x ∈ chars, isWordChar x := by
  cases h with
  | word _ hall _ => exact hall
  | quoted hq _ =>
    cases hc
    rw [isQuote_not_word hq] at hword
    cases hword
  | lineEnd =>
    cases hc
    cases hword
  | mark hmark _ =>
    cases hc
    rw [hmark.word] at hword
    cases hword

theorem spelled_of_scan {keep : Bool} {text : List Char} {ls : List Lexeme} (h : scan keep text = .ok ls)
    (file : String) : Grammar.Spelled (ls.map (token file text)) := by
  unfold Grammar.Spelled
  rw [List.forall_mem_map]
  intro l hl hisWord
  obtain ⟨c, hc, hdigit, hword⟩ := Token.isWordChar_of_isWord hisWord
  obtain ⟨before, after, -, hplaced⟩ := (tiles_of_scan h).slice l hl
  exact ⟨⟨c, hc, hdigit⟩, hplaced.form.all_isWordChar hc hword⟩

end Lexeme

/-- Operators of two marks are no words. -/
theorem Grammar.Spelled.paired {ts : List Token} (h : Spelled ts) : Spelled (Token.paired ts) := by
  fun_induction Token.paired ts with
  | case1 | case2 => exact h
  | case3 t u ts hjoins ih =>
    simp only [Spelled, List.forall_mem_cons] at h
    refine List.forall_mem_cons.2 ⟨fun hisWord => ?_, ih h.2.2⟩
    exact absurd hjoins.1 (Parser.text_notMem_of_head _ (Parser.isWord_head hisWord) (by decide))
  | case4 t u ts _ ih =>
    obtain ⟨ht, hts⟩ := List.forall_mem_cons.1 h
    exact List.forall_mem_cons.2 ⟨ht, ih hts⟩

/-! ## Names in programs -/

namespace Grammar

theorem Entity.named {ts : List Token} {e : Expr} (h : Entity ts e) (hts : Spelled ts) : e.Every Expr.Named := by
  cases h with
  | bool | null | text | serviceRoot | float | fraction => exact Expr.every_of_parts rfl trivial
  | system _ hname => exact Expr.every_of_parts rfl (hts _ (by simp) hname)
  | var hname hfree => exact Expr.every_of_parts rfl ⟨hts _ (by simp) hname, hfree⟩
  | int _ hvalue =>
    rw [Literal.int] at hvalue
    split at hvalue
    · cases hvalue
      exact Expr.every_of_parts rfl trivial
    · cases hvalue

-- Along the derivation: a node takes its names from tokens of its own.
mutual

theorem Chain.named {tiers : List (List String)} {ts : List Token} {e : Expr} (h : Chain tiers ts e)
    (hts : Spelled ts) : e.Every Expr.Named := by
  match h with
  | .unary hu => exact hu.named hts
  | .single hc => exact hc.named hts
  | .joined hc hl _ =>
    obtain ⟨hfirst, hlinks⟩ := List.forall_mem_append.1 hts
    exact Expr.every_chain.2 ⟨trivial, List.forall_mem_cons.2 ⟨hc.named hfirst, hl.named hlinks⟩⟩

theorem Links.named {operators : List String} {tighter : List (List String)} {ls : List Token}
    {more : List (Token × Expr)} (h : Links operators tighter ls more) (hls : Spelled ls) :
    ∀ e ∈ more.map (·.2), e.Every Expr.Named := by
  match h with
  | .nil => exact List.forall_mem_nil _
  | .cons _ hc hl =>
    obtain ⟨hlink, hmore⟩ := List.forall_mem_append.1 hls
    exact List.forall_mem_cons.2 ⟨hc.named (List.forall_mem_cons.1 hlink).2, hl.named hmore⟩

theorem Unary.named {ts : List Token} {e : Expr} (h : Unary ts e) (hts : Spelled ts) : e.Every Expr.Named := by
  match h with
  | .not _ hu => exact Expr.every_not.2 ⟨trivial, hu.named (List.forall_mem_cons.1 hts).2⟩
  | .negate _ hu => exact Expr.every_negate.2 ⟨trivial, hu.named (List.forall_mem_cons.1 hts).2⟩
  | .suffixed hs => exact hs.named hts

theorem Suffixed.named {ts : List Token} {e : Expr} (h : Suffixed ts e) (hts : Spelled ts) :
    e.Every Expr.Named := by
  match h with
  | .entity hent _ hs =>
    obtain ⟨hentity, hsuffixes⟩ := List.forall_mem_append.1 hts
    exact hs.named (hent.named hentity) hsuffixes
  | .group _ hc _ hs =>
    obtain ⟨hgroup, hsuffixes⟩ := List.forall_mem_append.1 hts
    exact hs.named (hc.named (List.forall_mem_cons.1 hgroup).2) (List.forall_mem_cons.1 hsuffixes).2

theorem Suffixes.named {root : Expr} {ss : List Token} {e : Expr} (h : Suffixes root ss e)
    (hroot : root.Every Expr.Named) (hss : Spelled ss) : e.Every Expr.Named := by
  match h with
  | .nil => exact hroot
  | .field _ hn hs =>
    obtain ⟨-, hname, hmore⟩ := by simpa only [Spelled, List.forall_mem_cons] using hss
    exact hs.named (Expr.every_field.2 ⟨hname hn, hroot⟩) hmore
  | .index _ hc _ hs =>
    obtain ⟨hkey, hmore⟩ := List.forall_mem_append.1 hss
    refine hs.named (Expr.every_index.2 ⟨trivial, hroot, ?_⟩) (List.forall_mem_cons.1 hmore).2
    exact hc.named (List.forall_mem_cons.1 hkey).2
  | .call _ ha _ hs =>
    obtain ⟨hargs, hmore⟩ := List.forall_mem_append.1 hss
    refine hs.named (Expr.every_call.2 ⟨trivial, hroot, ?_⟩) (List.forall_mem_cons.1 hmore).2
    exact ha.named (List.forall_mem_cons.1 hargs).2

theorem Arguments.named {ts : List Token} {args : List Expr} (h : Arguments ts args) (hts : Spelled ts) :
    ∀ e ∈ args, e.Every Expr.Named := by
  match h with
  | .nil => exact List.forall_mem_nil _
  | .cons hc hl =>
    obtain ⟨hfirst, hmore⟩ := List.forall_mem_append.1 hts
    exact List.forall_mem_cons.2 ⟨hc.named hfirst, hl.named hmore⟩

theorem MoreArguments.named {ls : List Token} {args : List Expr} (h : MoreArguments ls args) (hls : Spelled ls) :
    ∀ e ∈ args, e.Every Expr.Named := by
  match h with
  | .nil => exact List.forall_mem_nil _
  | .cons _ hc hl =>
    obtain ⟨hfirst, hmore⟩ := List.forall_mem_append.1 hls
    exact List.forall_mem_cons.2 ⟨hc.named (List.forall_mem_cons.1 hfirst).2, hl.named hmore⟩

end

theorem Label.isName {ts : List Token} {name : String} (h : Label ts name) (hts : Spelled ts) : IsName name := by
  cases h with
  | mk _ hn => exact hts _ (by simp) hn

theorem Otherwise.isName {ts : List Token} {name : Option String} (h : Otherwise ts name) (hts : Spelled ts) :
    ∀ x ∈ name.toList, IsName x := by
  cases h with
  | absent => exact List.forall_mem_nil _
  | label _ hl => exact List.forall_mem_singleton.2 (hl.isName (List.forall_mem_cons.1 hts).2)
  | gotoLabel _ _ hl =>
    obtain ⟨-, -, hlabel⟩ := by simpa only [Spelled, List.forall_mem_cons] using hts
    exact List.forall_mem_singleton.2 (hl.isName hlabel)

theorem Line.named {ts : List Token} {action : Action} (h : Line ts action) (hts : Spelled ts) :
    (∀ e ∈ action.exprs, e.Every Expr.Named) ∧ ∀ name ∈ action.labels, IsName name := by
  cases h with
  | label hl => exact ⟨List.forall_mem_nil _, List.forall_mem_singleton.2 (hl.isName hts)⟩
  | branch _ hc _ ht ho =>
    obtain ⟨hfront, hotherwise⟩ := List.forall_mem_append.1 hts
    obtain ⟨hcondition, hgoto⟩ := List.forall_mem_append.1 hfront
    refine ⟨List.forall_mem_singleton.2 (hc.named (List.forall_mem_cons.1 hcondition).2), ?_⟩
    exact List.forall_mem_cons.2 ⟨ht.isName (List.forall_mem_cons.1 hgoto).2, ho.isName hotherwise⟩
  | jump _ hl =>
    exact ⟨List.forall_mem_nil _, List.forall_mem_singleton.2 (hl.isName (List.forall_mem_cons.1 hts).2)⟩
  | print _ he =>
    exact ⟨List.forall_mem_singleton.2 (he.named (List.forall_mem_cons.1 hts).2), List.forall_mem_nil _⟩
  | assign _ hv _ he =>
    obtain ⟨htarget, hvalue⟩ := List.forall_mem_append.1 hts
    refine ⟨List.forall_mem_cons.2 ⟨hv.named htarget, ?_⟩, List.forall_mem_nil _⟩
    exact List.forall_mem_singleton.2 (he.named (List.forall_mem_cons.1 hvalue).2)
  | evaluate _ he => exact ⟨List.forall_mem_singleton.2 (he.named hts), List.forall_mem_nil _⟩

theorem Line.readable {ts : List Token} {action : Action} (h : Line ts action) (hts : Spelled ts) :
    action.Readable := by
  obtain ⟨hexprs, hlabels⟩ := h.named hts
  exact ⟨fun e he x hx => ⟨h.shaped.1 e he x hx, hexprs e he x hx⟩, hlabels⟩

theorem Lines.readable {ts : List Token} {statements : List Statement} (h : Lines ts statements)
    (hts : Spelled ts) : ∀ s ∈ statements, s.action.Readable := by
  induction h with
  | last hs _ =>
    cases hs with
    | mk hl => exact List.forall_mem_singleton.2 (hl.readable (List.forall_mem_append.1 hts).1)
  | cons hs _ _ _ ih =>
    obtain ⟨hfront, hmore⟩ := List.forall_mem_append.1 hts
    cases hs with
    | mk hl => exact List.forall_mem_cons.2 ⟨hl.readable (List.forall_mem_append.1 hfront).1, ih hmore⟩

theorem Derives.readable {ts : List Token} {p : Program} (h : Derives ts p) (hts : Spelled ts) : p.Readable := by
  cases h with
  | blank _ => exact List.forall_mem_nil _
  | lines _ hl => exact hl.readable (List.forall_mem_append.1 hts).2

end Grammar

theorem readable_of_parseSource {file source : String} {p : Program} (h : parseSource file source = .ok p) :
    p.Readable := by
  obtain ⟨-, -, ls, hscan, hderives⟩ := parseSource_eq_ok_iff.1 h
  exact hderives.readable (Lexeme.spelled_of_scan hscan file).paired

/-! ## Equal dumps -/

/-- Two parsed programs have the same dump exactly if they look alike. Where neither has a float that is not
finite or a call that looks like a chain, they look alike exactly if they differ in nothing but places. -/
theorem dump_eq_iff_looks_alike {file file' source source' : String} {p q : Program}
    (hp : parseSource file source = .ok p) (hq : parseSource file' source' = .ok q) :
    (p.dump = q.dump ↔ p.asDumped = q.asDumped) ∧
      ((∀ e ∈ p.parts ++ q.parts, ¬ e.Ambiguous) → (p.dump = q.dump ↔ p.bare = q.bare)) := by
  have hiff := Program.dump_eq_iff_asDumped_eq (readable_of_parseSource hp) (readable_of_parseSource hq)
  refine ⟨hiff, fun hplain => ?_⟩
  obtain ⟨hplainp, hplainq⟩ := List.forall_mem_append.1 hplain
  rw [hiff, Program.asDumped_eq_bare hplainp, Program.asDumped_eq_bare hplainq]

/-- A call of `and`. -/
def callOfAnd : Program :=
  ⟨[⟨.evaluate (.call (.var "and") [.var "x"]), ⟨"main", 1, 1⟩⟩]⟩

/-- A chain of a variable named `call`. -/
def chainOfCall : Program :=
  ⟨[⟨.evaluate (.chain [.var "call", .var "x"] [⟨"and", ⟨"main", 1, 6⟩, 1⟩]), ⟨"main", 1, 1⟩⟩]⟩

theorem parseSource_callOfAnd : parseSource "main" "and(x)" = .ok callOfAnd := by cbv

theorem parseSource_chainOfCall : parseSource "main" "call and x" = .ok chainOfCall := by cbv

/-- A call of `and` that looks like nothing else, at two places, and one that looks like a chain. -/
theorem dump_eq_iff_calls_of_and :
    let plain (column : UInt32) : Program :=
      ⟨[⟨.evaluate (.call (.var "and") [.var "x", .var "y"]), ⟨"main", 1, column⟩⟩]⟩
    (parseSource "main" "and(x,y)" = .ok (plain 1) ∧ parseSource "main" " and(x,y)" = .ok (plain 2) ∧
      (∀ e ∈ (plain 1).parts ++ (plain 2).parts, ¬ e.Ambiguous) ∧ (plain 1).dump = (plain 2).dump) ∧
    parseSource "main" "and(x)" = .ok callOfAnd ∧ parseSource "main" "call and x" = .ok chainOfCall ∧
      callOfAnd.dump = chainOfCall.dump := by
  intro plain
  have hfirst : parseSource "main" "and(x,y)" = .ok (plain 1) := by cbv
  have hsecond : parseSource "main" " and(x,y)" = .ok (plain 2) := by cbv
  have hplain : ∀ e ∈ (plain 1).parts ++ (plain 2).parts, ¬ e.Ambiguous := by
    simp [plain, Program.parts, Action.exprs, Expr.parts, Expr.partsOfAll, Expr.Ambiguous, Expr.asLinks?,
      Expr.between?]
  refine ⟨⟨hfirst, hsecond, hplain, ?_⟩, parseSource_callOfAnd, parseSource_chainOfCall, ?_⟩
  · exact ((dump_eq_iff_looks_alike hfirst hsecond).2 hplain).2 rfl
  · exact (dump_eq_iff_looks_alike parseSource_callOfAnd parseSource_chainOfCall).1.2 rfl

/-- The dump does not tell a call of `and` from a chain that starts with a variable named `call`. -/
theorem dump_call_of_and_ambiguous :
    parseSource "main" "and(x)" = .ok callOfAnd ∧ parseSource "main" "call and x" = .ok chainOfCall ∧
      callOfAnd.dump = chainOfCall.dump ∧ callOfAnd.bare ≠ chainOfCall.bare := by
  refine ⟨parseSource_callOfAnd, parseSource_chainOfCall, by cbv, fun h => ?_⟩
  simp [callOfAnd, chainOfCall, Program.bare, Action.bare, Expr.bare] at h

end GotoScript
