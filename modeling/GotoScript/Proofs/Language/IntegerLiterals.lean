import GotoScript.Proofs.Language.FloatLiterals
import GotoScript.Proofs.Language.Sources
import GotoScript.Proofs.Parsing.Readings
import GotoScript.Proofs.Running.Folding

/-!
# Integers that are printed

An integer is printed as digits, after a minus sign if it is negative. Read again, the sign is an operator, and the
digits are a literal of their own, which has to be in range without its sign.

* `Literal.int_eq` : which digits are a literal, and why the others are refused;
* `Value.spelling`, `exists_tokenStream_toString` : the tokens of a printed integer, of any size;
* `Grammar.expression_of_spelling`, `Parser.expression_fails_of_spelling` : the expression that they make, or the
  error of their digits;
* `shown_int_readsAs_iff` : the integers that come back.
-/

namespace GotoScript

/-! ## Digits -/

namespace Literal

theorem isDigits_repr (m : Nat) : isDigits m.repr := by
  rw [Nat.repr_eq_ofList_toDigits]
  refine isDigits_ofList Nat.toDigits_ne_nil (List.all_eq_true.2 fun c hc => ?_)
  exact Nat.isDigit_of_mem_toDigits (by decide) (by decide) hc

/-- The digits of a number are a literal up to the greatest word. -/
theorem int_eq {t : Token} {m : Nat} (ht : t.text = m.repr) :
    int t = if m < Nat.pow 2 63 then .ok (.int (.ofNat m))
      else .error (.atToken .unexpectedToken ("integer literal out of range: " ++ t.text) t) := by
  unfold int
  rw [ht, Nat.toList_repr, Number.natOfDigits_toDigits]

end Literal

/-! ## Tokens -/

/-- The texts of the tokens of a printed integer. -/
def Value.spelling : Int → List String
  | .ofNat m => [m.repr]
  | .negSucc m => ["-", (m + 1).repr]

theorem Lexeme.scan_toString (z : Int) :
    ∃ ls, scan true (toString z).toList = .ok ls ∧ ls.map (·.text) = Value.spelling z := by
  have hdigits (m : Nat) : Form true (some .word) m.repr.toList [] :=
    form_digits (Literal.isDigits_repr m) (by simp)
  unfold scan
  cases z with
  | ofNat m =>
    have hsplit : (toString (Int.ofNat m)).toList = m.repr.toList ++ [] := (List.append_nil _).symm
    rw [hsplit, scanFrom_append (hdigits m), scanFrom]
    exact ⟨_, rfl, congrArg (fun text => [text]) String.ofList_toList⟩
  | negSucc m =>
    have hsplit : (toString (Int.negSucc m)).toList = ['-'] ++ ((m + 1).repr.toList ++ []) := by
      rw [List.append_nil]
      exact String.toList_append
    have hminus : Form true (some .mark) ['-'] ((m + 1).repr.toList ++ []) :=
      .mark ⟨rfl, rfl, rfl, by decide⟩ (by simp)
    rw [hsplit, scanFrom_append hminus, scanFrom_append (hdigits (m + 1)), scanFrom]
    exact ⟨_, rfl, congrArg (fun text => ["-", text]) String.ofList_toList⟩

/-- A sign does not join with the digits after it. -/
theorem Token.paired_of_spelling {ts : List Token} {z : Int} (h : ts.map (·.text) = Value.spelling z) :
    paired ts = ts := by
  cases z with
  | ofNat m =>
    obtain ⟨t, rfl, -⟩ := List.map_eq_singleton_iff.1 h
    rfl
  | negSucc m =>
    obtain ⟨sign, ts, rfl, hsign, hts⟩ := List.map_eq_cons_iff.1 h
    obtain ⟨t, rfl, -⟩ := List.map_eq_singleton_iff.1 hts
    have hminus : '-' ∈ sign.text.toList := by
      rw [hsign]
      decide
    exact paired_of_not_joins fun u _ => not_joins_of_mem (by decide) (.inl hminus)

theorem notMem_toString (z : Int) : '\r' ∉ (toString z).toList := by
  have hdigits (m : Nat) : '\r' ∉ m.repr.toList := fun h => by
    cases (Lexeme.isDigits_chars (Literal.isDigits_repr m)).2 _ h
  cases z with
  | ofNat m => exact hdigits m
  | negSucc m =>
    have hsplit : (toString (Int.negSucc m)).toList = '-' :: (m + 1).repr.toList := String.toList_append
    rw [hsplit, List.mem_cons]
    rintro (hsign | hmem)
    · exact absurd hsign (by decide)
    · exact hdigits (m + 1) hmem

theorem exists_tokenStream_toString {file : String} (hfile : file ≠ "") (z : Int) :
    ∃ stream, tokenStream file (toString z) = .ok stream ∧ stream.tokens.map (·.text) = Value.spelling z := by
  obtain ⟨ls, hscan, htexts⟩ := Lexeme.scan_toString z
  have hne : toString z ≠ "" := by
    intro hempty
    rw [hempty, String.toList_empty, Lexeme.scan, Lexeme.scanFrom] at hscan
    cases hscan
    cases z <;> cases htexts
  have htokens : (ls.map (Lexeme.token file (toString z).toList)).map (·.text) = Value.spelling z := by
    rw [List.map_map]
    exact htexts
  refine ⟨_, tokenStream_eq_ok_iff.2 ⟨hfile, hne, ls, ?_, rfl⟩, ?_⟩
  · rw [Text.unifyLineEnds_of_notMem (notMem_toString z)]
    exact hscan
  · rw [Text.unifyLineEnds_of_notMem (notMem_toString z), TokenStream.tokens_ofLexemes hscan,
      Token.paired_of_spelling htokens, htokens]

/-! ## Expressions -/

/-- The expression that a printed integer makes. -/
def Expr.ofInt : Int → Expr
  | .ofNat m => .int (.ofNat m)
  | .negSucc m => .negate (.int (.ofNat (m + 1)))

theorem Expr.yields_ofInt {host : Host} {env : Environment} (z : Int) :
    ((Expr.ofInt z).eval host env).Yields (.ok (.int (.ofInt z))) [] := by
  cases z with
  | ofNat m =>
    rw [Expr.ofInt, eval]
    exact Eval.yields_pure _
  | negSucc m =>
    rw [Expr.ofInt, eval, eval]
    refine (Eval.yields_pure _).bind_silent (Eval.yields_ofExcept ?_)
    rw [Int.negSucc_eq, Int64.ofInt_neg]
    rfl

namespace Grammar

theorem unary_digits {t : Token} {m : Nat} (ht : t.text = m.repr) (hm : m < Nat.pow 2 63) :
    Unary [t] (.int (.ofNat m)) := by
  have hdigits : Literal.isDigits t.text := ht ▸ Literal.isDigits_repr m
  have hint : Literal.int t = .ok (.int (.ofNat m)) := (Literal.int_eq ht).trans (if_pos hm)
  exact .suffixed (.entity (.int hdigits hint) (fun _ => noneAhead_nil _) .nil)

theorem expression_of_spelling {ts : List Token} {z : Int} (h : ts.map (·.text) = Value.spelling z)
    (hz : z.natAbs < Nat.pow 2 63) : Expression ts (.ofInt z) := by
  have hunary : Unary ts (.ofInt z) := by
    cases z with
    | ofNat m =>
      obtain ⟨t, rfl, ht⟩ := List.map_eq_singleton_iff.1 h
      exact unary_digits ht hz
    | negSucc m =>
      obtain ⟨sign, ts, rfl, hsign, hts⟩ := List.map_eq_cons_iff.1 h
      obtain ⟨t, rfl, ht⟩ := List.map_eq_singleton_iff.1 hts
      exact .negate hsign (unary_digits ht hz)
  exact .single (.single (.single (.single (.single (.single (.unary hunary))))))

end Grammar

namespace Parser

variable {file : String}

/-- The first operand of a chain is read first, so what it fails with is what the chain fails with. -/
theorem chain_fails_of_unary {tiers : List (List String)} {ts : List Token} {e : CompileError}
    (h : (unary file ts).Fails e) : (chain file tiers ts).Fails e := by
  induction tiers with
  | nil =>
    rw [chain]
    exact h
  | cons operators tighter ih =>
    rw [chain]
    exact ih.andThen _

theorem unary_fails_of_digits {t : Token} {m : Nat} (ht : t.text = m.repr) (hm : ¬ m < Nat.pow 2 63) :
    (unary file [t]).Fails (.atToken .unexpectedToken ("integer literal out of range: " ++ t.text) t) := by
  have hdigits : Literal.isDigits t.text := ht ▸ Literal.isDigits_repr m
  have hno := text_notMem_of_head ["not", "-", "("] (isDigits_head hdigits) (by decide)
  simp only [List.mem_cons, List.not_mem_nil, or_false, not_or] at hno
  obtain ⟨hnot, hminus, hopen⟩ := hno
  rw [unary, if_neg hnot, if_neg hminus, suffixed, primary, if_neg hopen, entity_of_isDigits hdigits]
  refine Parsed.Fails.andThen ?_ _
  exact (Literal.int_eq ht).trans (if_neg hm)

/-- Where the digits of a printed integer are too great without the sign, they are refused, and it is no expression. -/
theorem expression_fails_of_spelling {ts : List Token} {z : Int} (h : ts.map (·.text) = Value.spelling z)
    (hz : ¬ z.natAbs < Nat.pow 2 63) :
    ∃ t, ts.getLast? = some t ∧ (expression file ts).Fails
      (.atToken .unexpectedToken ("integer literal out of range: " ++ t.text) t) := by
  cases z with
  | ofNat m =>
    obtain ⟨t, rfl, ht⟩ := List.map_eq_singleton_iff.1 h
    exact ⟨t, rfl, chain_fails_of_unary (unary_fails_of_digits ht hz)⟩
  | negSucc m =>
    obtain ⟨sign, ts, rfl, hsign, hts⟩ := List.map_eq_cons_iff.1 h
    obtain ⟨t, rfl, ht⟩ := List.map_eq_singleton_iff.1 hts
    refine ⟨t, rfl, chain_fails_of_unary ?_⟩
    rw [unary, if_neg (by rw [hsign]; decide), if_pos hsign]
    exact (Parsed.fails_map ..).2 (unary_fails_of_digits ht hz)

end Parser

/-! ## Values -/

/-- Read as an expression, the whole text has this value, wherever it is evaluated, and nothing else happens. -/
def ReadsAs (file source : String) (v : Value) : Prop :=
  ∃ stream e, tokenStream file source = .ok stream ∧ (Parser.expression stream.file stream.tokens).Gives e [] ∧
    ∀ host env, (e.eval host env).Yields (.ok v) []

theorem readsAs_toString {file : String} (hfile : file ≠ "") {z : Int} (hz : z.natAbs < Nat.pow 2 63) :
    ReadsAs file (toString z) (.int (.ofInt z)) := by
  obtain ⟨stream, hstream, htokens⟩ := exists_tokenStream_toString hfile z
  have hgives : (Parser.expression stream.file (stream.tokens ++ [])).Gives (.ofInt z) [] :=
    (Grammar.expression_of_spelling htokens hz).gives stream.file Grammar.separated_tiers (noneAhead_nil _)
  rw [List.append_nil] at hgives
  exact ⟨stream, .ofInt z, hstream, hgives, fun host env => Expr.yields_ofInt z⟩

theorem natAbs_lt_of_readsAs {file : String} {z : Int} {v : Value} (h : ReadsAs file (toString z) v) :
    z.natAbs < Nat.pow 2 63 := by
  obtain ⟨stream, e, hstream, hgives, -⟩ := h
  obtain ⟨stream', hstream', htokens⟩ := exists_tokenStream_toString (tokenStream_eq_ok_iff.1 hstream).1 z
  cases hstream.symm.trans hstream'
  by_contra hz
  obtain ⟨t, -, hfails⟩ := Parser.expression_fails_of_spelling htokens hz
  cases hgives.1.symm.trans hfails

theorem natAbs_toInt_lt_iff {n : Int64} : n.toInt.natAbs < Nat.pow 2 63 ↔ n ≠ Int64.minValue := by
  have hlo := n.minValue_le_toInt
  have hhi := n.toInt_le
  rw [ne_eq, ← Int64.toInt_inj]
  have hmin : Int64.minValue.toInt = -9223372036854775808 := by decide
  have hmax : Int64.maxValue.toInt = 9223372036854775807 := by decide
  have hpow : Nat.pow 2 63 = 9223372036854775808 := by decide
  omega

theorem spelling_minValue : Value.spelling Int64.minValue.toInt = ["-", "9223372036854775808"] := by
  decide +kernel

/-- A printed integer is read back as itself, unless it is the least of all. Its digits are one too great for a
literal, which is read before the sign is applied: they are refused, and the text is no expression. -/
theorem shown_int_readsAs_iff (file : String) (n : Int64) (hfile : file ≠ "") :
    (ReadsAs file (Value.int n).shown (.int n) ↔ n ≠ Int64.minValue) ∧
    ∃ stream sign digits, tokenStream file (Value.int Int64.minValue).shown = .ok stream ∧
      stream.tokens = [sign, digits] ∧ sign.text = "-" ∧ digits.text = "9223372036854775808" ∧
      (Parser.expression stream.file stream.tokens).Fails
        (.atToken .unexpectedToken "integer literal out of range: 9223372036854775808" digits) := by
  constructor
  · rw [← natAbs_toInt_lt_iff]
    refine ⟨natAbs_lt_of_readsAs, fun hn => ?_⟩
    have hreads := readsAs_toString hfile hn
    rw [Int64.ofInt_toInt] at hreads
    exact hreads
  · obtain ⟨stream, hstream, htexts⟩ := exists_tokenStream_toString hfile Int64.minValue.toInt
    obtain ⟨t, hlast, hfails⟩ := @Parser.expression_fails_of_spelling stream.file _ _ htexts (by decide)
    rw [spelling_minValue] at htexts
    obtain ⟨sign, ts, htokens, hsign, hts⟩ := List.map_eq_cons_iff.1 htexts
    obtain ⟨digits, rfl, hdigits⟩ := List.map_eq_singleton_iff.1 hts
    rw [htokens] at hlast
    obtain rfl : digits = t := Option.some.inj hlast
    rw [hdigits] at hfails
    exact ⟨stream, sign, digits, hstream, htokens, hsign, hdigits, hfails⟩

/-- The least integer that is read back. -/
theorem least_int_readsAs : ReadsAs "main" "-9223372036854775807" (.int (-9223372036854775807)) := by
  have hreads := (shown_int_readsAs_iff "main" (-9223372036854775807) (by decide)).1.2 (by decide)
  have hshown : (Value.int (-9223372036854775807)).shown = "-9223372036854775807" := by decide +kernel
  rw [hshown] at hreads
  exact hreads

/-- The least integer of all has no value when it is read again. -/
theorem not_readsAs_minValue : ¬ ∃ v, ReadsAs "main" (Value.int Int64.minValue).shown v := by
  rintro ⟨v, h⟩
  exact absurd (natAbs_lt_of_readsAs h) (by decide)

end GotoScript
