import GotoScript.Proofs.Language.Compilation
import GotoScript.Proofs.Parsing.Programs
import GotoScript.Proofs.Scanning.Tokens

/-!
# Programs that print a float

The way of a float literal of any length from a source text into a program, through scanning, the token
table, the token stream and the parser:

* `scan_printFloat` : the lexemes of `print` and a float;
* `tokens_of_printFloat` : the tokens of their table;
* `derives_print_float` : these tokens derive a program;
* `compile_printFloat` : compiling gives that program; `runTree_print_float` : running it prints the
  float.
-/

namespace GotoScript

/-- A program that prints a float, by the digits before and after its point. -/
def printFloat (whole decimals : String) : String :=
  "print " ++ whole ++ "." ++ decimals

theorem isDigits_ofList {digits : List Char} (hne : digits ≠ []) (h : digits.all Char.isDigit) :
    Literal.isDigits (String.ofList digits) := by
  unfold Literal.isDigits
  rw [String.toList_ofList, h, Bool.and_true, Bool.not_eq_true', Bool.eq_false_iff, ne_eq,
    String.isEmpty_iff, ← String.toList_eq_nil_iff, String.toList_ofList]
  exact hne

/-! ## Lexemes -/

namespace Lexeme

theorem isDigits_chars {text : String} (h : Literal.isDigits text) :
    text.toList ≠ [] ∧ ∀ c ∈ text.toList, c.isDigit := by
  unfold Literal.isDigits at h
  obtain ⟨hne, hall⟩ := Bool.and_eq_true_iff.1 h
  refine ⟨fun hnil => ?_, List.all_eq_true.1 hall⟩
  rw [String.toList_eq_nil_iff] at hnil
  subst hnil
  cases hne

/-- Digits are one lexeme where no word character follows. -/
theorem form_digits {keep : Bool} {text : String} {rest : List Char} (h : Literal.isDigits text)
    (hrest : ∀ c ∈ rest.head?, isWordChar c = false) :
    Form keep (some .word) text.toList rest :=
  .word (isDigits_chars h).1 (fun c hc => isWordChar_of_isDigit ((isDigits_chars h).2 c hc)) hrest

theorem scan_printFloat {whole decimals : String} (hw : Literal.isDigits whole)
    (hd : Literal.isDigits decimals) :
    ∃ lexemes, scan true (printFloat whole decimals).toList = .ok lexemes ∧
      lexemes.map (·.text) = ["print", whole, ".", decimals] := by
  have hsplit : (printFloat whole decimals).toList =
      "print".toList ++ ([' '] ++ (whole.toList ++ (['.'] ++ (decimals.toList ++ [])))) := by
    simp [printFloat]
  have hprint : Form true (some .word) "print".toList
      ([' '] ++ (whole.toList ++ (['.'] ++ (decimals.toList ++ [])))) :=
    .word (by decide) (List.all_eq_true.1 (by decide)) (by simp [isWordChar])
  have hblank : Form true none [' '] (whole.toList ++ (['.'] ++ (decimals.toList ++ []))) := by
    refine .blanks (by decide) (List.all_eq_true.1 rfl) fun c hc => ?_
    obtain ⟨hne, hall⟩ := isDigits_chars hw
    obtain ⟨d, ds, hdigits⟩ := List.exists_cons_of_ne_nil hne
    rw [hdigits] at hall hc
    obtain rfl : d = c := Option.some.inj hc
    have hword := isWordChar_of_isDigit (hall d (.head _))
    cases hb : isBlank true d with
    | false => rfl
    | true => exact hword.symm.trans (isBlank_not_word hb)
  have hpoint : Form true (some .mark) ['.'] (decimals.toList ++ []) :=
    .mark ⟨rfl, rfl, rfl, by decide⟩ (by simp)
  have hwhole : Form true (some .word) whole.toList (['.'] ++ (decimals.toList ++ [])) :=
    form_digits hw (by simp [isWordChar])
  have hdecimals : Form true (some .word) decimals.toList [] := form_digits hd (by simp)
  unfold scan
  rw [hsplit, scanFrom_append hprint, scanFrom_append hblank, scanFrom_append hwhole,
    scanFrom_append hpoint, scanFrom_append hdecimals, scanFrom]
  refine ⟨_, rfl, ?_⟩
  simp [Item.lexemes]

end Lexeme

/-! ## Tokens -/

namespace TokenStream

/-- Letters, digits and points start no operator of two marks. -/
theorem not_joined {text next : String} {c : Char} (h : text.toList.head? = some c)
    (hc : c.isAlphanum || c = '.') : text ++ next ∉ joinedOperators := by
  have hfirst : (⟨text ++ next, ⟨"", 0, 0⟩, 1⟩ : Token).firstChar? = some c := by
    unfold Token.firstChar?
    rw [String.toList_append, List.head?_append, h]
    rfl
  exact @Parser.text_notMem_of_head _ (fun c => c.isAlphanum || c = '.') joinedOperators
    ⟨c, hfirst, hc⟩ (by decide)

/-- The tokens of the table of `print` and a float. -/
theorem tokens_of_printFloat {t : TokenTable} {whole decimals : String}
    (hw : Literal.isDigits whole) (hvalues : t.values = #["print", whole, ".", decimals]) :
    (TokenStream.mk t 0).tokens =
      [⟨"print", positionAt t 0, 1⟩, ⟨whole, positionAt t 1, 1⟩, ⟨".", positionAt t 2, 1⟩,
        ⟨decimals, positionAt t 3, 1⟩] := by
  obtain ⟨hne, hall⟩ := Lexeme.isDigits_chars hw
  obtain ⟨d, ds, hdigits⟩ := List.exists_cons_of_ne_nil hne
  have hd : d.isDigit := hall d (by rw [hdigits]; exact .head _)
  have hprint (next : String) : "print" ++ next ∉ joinedOperators := not_joined rfl (by decide)
  have hwhole (next : String) : whole ++ next ∉ joinedOperators := by
    apply @not_joined whole next d
    · rw [hdigits]
      rfl
    · change ((d.isAlpha || d.isDigit) || decide (d = '.')) = true
      rw [hd, Bool.or_true, Bool.true_or]
  have hpoint (next : String) : "." ++ next ∉ joinedOperators := not_joined rfl (by decide)
  have hlast (next : String) (hnext : t.values[4]? = some next) :
      decimals ++ next ∉ joinedOperators := by
    rw [hvalues] at hnext
    cases hnext
  unfold tokens
  rw [tokensFrom_of_not_joined (by rw [hvalues]; rfl) fun next _ => hprint next,
    tokensFrom_of_not_joined (by rw [hvalues]; rfl) fun next _ => hwhole next,
    tokensFrom_of_not_joined (by rw [hvalues]; rfl) fun next _ => hpoint next,
    tokensFrom_of_not_joined (by rw [hvalues]; rfl) hlast, tokensFrom_end (by rw [hvalues]; rfl)]

end TokenStream

/-! ## Programs -/

theorem Grammar.derives_print_float {word whole point decimals : Token} (hword : word.text = "print")
    (hw : Literal.isDigits whole.text) (hp : point.text = ".") (hd : Literal.isDigits decimals.text) :
    Derives [word, whole, point, decimals]
      ⟨[⟨.print (Literal.float whole.text decimals.text), word.position⟩]⟩ := by
  have hfloat : Entity [whole, point, decimals] (Literal.float whole.text decimals.text) :=
    .float hw hp hd
  have hsuffixed : Suffixed [whole, point, decimals] (Literal.float whole.text decimals.text) :=
    .entity hfloat (fun _ => noneAhead_nil _) .nil
  have hexpr : Expression [whole, point, decimals] (Literal.float whole.text decimals.text) :=
    .single (.single (.single (.single (.single (.single (.unary (.suffixed hsuffixed)))))))
  have hline : Lines [word, whole, point, decimals]
      [⟨.print (Literal.float whole.text decimals.text), word.position⟩] :=
    .last (.mk (.print hword hexpr)) (fun t ht => absurd ht List.not_mem_nil)
  exact .lines (fun t ht => absurd ht List.not_mem_nil) hline

theorem notMem_printFloat {whole decimals : String} (hw : Literal.isDigits whole)
    (hd : Literal.isDigits decimals) : '\r' ∉ (printFloat whole decimals).toList := by
  have hwhole : '\r' ∉ whole.toList := fun h => by cases (Lexeme.isDigits_chars hw).2 _ h
  have hdecimals : '\r' ∉ decimals.toList := fun h => by cases (Lexeme.isDigits_chars hd).2 _ h
  simp [printFloat, hwhole, hdecimals]

/-- The table of `print` and a float. -/
theorem tokenize_printFloat {name whole decimals : String} (hname : name ≠ "")
    (hw : Literal.isDigits whole) (hd : Literal.isDigits decimals) :
    ∃ table, TokenizeRequest.tokenize ⟨some name, some (printFloat whole decimals), true⟩ =
      .ok table ∧ table.values = #["print", whole, ".", decimals] := by
  have hsource : printFloat whole decimals ≠ "" := by simp [printFloat]
  obtain ⟨lexemes, hscan, htexts⟩ := Lexeme.scan_printFloat hw hd
  refine ⟨.ofLexemes name (printFloat whole decimals).toList lexemes, ?_, ?_⟩
  · rw [TokenizeRequest.tokenize_eq_ok_iff,
      Text.unifyLineEnds_of_notMem (notMem_printFloat hw hd)]
    exact ⟨hname, hsource, lexemes, hscan, rfl⟩
  · unfold TokenTable.ofLexemes
    rw [htexts]

/-- A program that prints a float compiles, however many digits the float has. -/
theorem compile_printFloat {registry : Registry} (h : registry.BoundTo tokenizerName .tokenizer)
    {name whole decimals : String} (hname : name ≠ "") (hw : Literal.isDigits whole)
    (hd : Literal.isDigits decimals) :
    ∃ position, compile registry ⟨[⟨name, printFloat whole decimals⟩]⟩ =
      .ok ⟨[⟨.print (Literal.float whole decimals), position⟩]⟩ := by
  obtain ⟨table, htable, hvalues⟩ := tokenize_printFloat hname hw hd
  refine ⟨TokenStream.positionAt table 0, ?_⟩
  have hderives := @Grammar.derives_print_float ⟨"print", TokenStream.positionAt table 0, 1⟩
    ⟨whole, TokenStream.positionAt table 1, 1⟩ ⟨".", TokenStream.positionAt table 2, 1⟩
    ⟨decimals, TokenStream.positionAt table 3, 1⟩ rfl hw rfl hd
  have hprogram : (TokenStream.mk table 0).program =
      .ok ⟨[⟨.print (Literal.float whole decimals), TokenStream.positionAt table 0⟩]⟩ := by
    unfold TokenStream.program
    rw [TokenStream.tokens_of_printFloat hw hvalues]
    exact hderives.parses
  rw [compile_single h, htable]
  change (TokenStream.mk table 0).program.mapError _ = _
  rw [hprogram]
  rfl

/-! ## Runs -/

/-- Printing a float is one step. -/
theorem Machine.step_print_float {host : Host} {code : Code} {m : Machine} {x : Float}
    {position : Position} {console : Console}
    (hstatement : code.statements[m.counter]? = some ⟨.print (.float x), position⟩)
    (hprint : m.console.print (Value.float x).shown = (true, console)) :
    m.step host code = .running { m with
      counter := m.counter + 1, console, events := .executing m.counter position :: m.events } := by
  have heval : ({ m with events := .executing m.counter position :: m.events } : Machine).evaluate
      host (.float x) =
        (.ok (.float x), { m with events := .executing m.counter position :: m.events }) := by
    unfold Machine.evaluate
    rw [Expr.eval]
    rfl
  unfold Machine.step
  rw [hstatement]
  simp only [Statement.labelName?, Option.isSome_none, Bool.false_eq_true, if_false,
    Machine.execute, heval, hprint]

/-- The program prints its float and ends. -/
theorem runTree_print_float {x : Float} (h : (Value.float x).shown.isEmpty = false) (world : World)
    (fuel : Nat) (position : Position) :
    runTree world (fuel + 2) ⟨[⟨.print (.float x), position⟩]⟩ .unlimited =
      some (.ok (), (Value.float x).shown ++ "\n") := by
  have hprint : Console.print { writer := .unlimited } (Value.float x).shown =
      (true, ⟨⟨Writer.unlimited.admits, 2, 0 + (Value.float x).shown.utf8ByteSize + 1,
        ["\n", (Value.float x).shown]⟩, none⟩) := by
    unfold Console.print
    rw [h]
    rfl
  unfold runTree Interpreter.interpret Machine.start
  simp only [Machine.run]
  rw [Machine.step_print_float rfl hprint]
  have hjoin : String.join ["\n", (Value.float x).shown].reverse = (Value.float x).shown ++ "\n" := by
    simp [String.join]
  rw [← hjoin]
  rfl

end GotoScript
