import GotoScript.Proofs.Dumps.LookAlikes
import GotoScript.Proofs.Numbers.DecimalTexts
import GotoScript.Proofs.Scanning.Items

/-!
# Atoms of dumps

Names and literals stand in a dump as atoms. In a parsed program their texts are apart from the signs of
operators and from each other, so that an atom says which literal or name it is:

* `IsName`, `Expr.Named`, `Expr.Readable` : what names and chains of parsed expressions are like;
* `LeafText`, `Expr.leafText_of_sexp` : what the text of an atom is like;
* `Expr.clean_sexp`, `Action.clean_sexp` : the trees of parsed programs are read as they were written;
* `readAtom`, `Expr.readAtom_of_sexp` : the literal or name that an atom stands for.
-/

namespace GotoScript

/-! ## Names and atoms -/

/-- A word that is no number. -/
structure IsName (text : String) : Prop where
  head : ∃ c, text.toList.head? = some c ∧ ¬ c.isDigit
  chars : ∀ c ∈ text.toList, Lexeme.isWordChar c

/-- The names at the top of an expression are words, and variables have no reserved one. -/
def Expr.Named : Expr → Prop
  | var name => IsName name ∧ name ∉ Grammar.reserved
  | system name | field _ name => IsName name
  | _ => True

/-- What is known of each part of a parsed expression. -/
def Expr.Readable (e : Expr) : Prop :=
  e.Shaped ∧ e.Named

/-- The text of an expression without parts: an atom that is no operator sign, no `not` and no label. -/
structure LeafText (text : String) : Prop where
  isAtom : Sexp.IsAtom text
  wordChar : ∃ c ∈ text.toList, Lexeme.isWordChar c
  head_ne : text.toList.head? ≠ some '@'
  ne_not : text ≠ "not"

theorem isMark_of_isWordChar {c : Char} (h : Lexeme.isWordChar c) : ¬ Sexp.isMark c := by
  intro hmark
  simp only [Sexp.isMark, Bool.or_eq_true, decide_eq_true_eq] at hmark
  rcases hmark with (((rfl | rfl) | rfl) | rfl) | rfl <;> exact absurd h (by decide)

theorem IsName.exists_cons {text : String} (h : IsName text) :
    ∃ c cs, text.toList = c :: cs ∧ ¬ c.isDigit ∧ Lexeme.isWordChar c := by
  obtain ⟨c, hc, hdigit⟩ := h.head
  obtain ⟨cs, hcs⟩ := List.head?_eq_some_iff.1 hc
  exact ⟨c, cs, hcs, hdigit, h.chars c (hcs ▸ List.mem_cons_self)⟩

theorem IsName.isAtom {text : String} (h : IsName text) : Sexp.IsAtom text := by
  obtain ⟨c, cs, hcs, -, -⟩ := h.exists_cons
  exact ⟨hcs ▸ List.cons_ne_nil c cs, fun x hx => isMark_of_isWordChar (h.chars x hx)⟩

theorem IsName.head_ne {text : String} (h : IsName text) {mark : Char} (hmark : ¬ Lexeme.isWordChar mark) :
    text.toList.head? ≠ some mark := by
  obtain ⟨c, cs, hcs, -, hword⟩ := h.exists_cons
  rw [hcs]
  rintro ⟨⟩
  exact hmark hword

theorem IsName.leafText {text : String} (h : IsName text) (hne : text ≠ "not") : LeafText text := by
  obtain ⟨c, cs, hcs, -, hword⟩ := h.exists_cons
  exact ⟨h.isAtom, ⟨c, hcs ▸ List.mem_cons_self, hword⟩, h.head_ne (by decide), hne⟩

/-- Whether a text is a name can be seen from its characters. -/
theorem isName_of_all {text : String}
    (h : (text.toList.head?.any (!·.isDigit) && text.toList.all Lexeme.isWordChar) = true) : IsName text := by
  rw [Bool.and_eq_true, Option.any_eq_true, List.all_eq_true] at h
  obtain ⟨⟨c, hc, hdigit⟩, hall⟩ := h
  exact ⟨⟨c, hc, by simpa using hdigit⟩, hall⟩

/-- A mark before a name. -/
theorem isAtom_append (mark : Char) (hmark : ¬ Sexp.isMark mark) {text : String} (h : IsName text) :
    Sexp.IsAtom (String.singleton mark ++ text) := by
  unfold Sexp.IsAtom
  rw [String.toList_append, String.toList_singleton, List.singleton_append, List.forall_mem_cons]
  exact ⟨List.cons_ne_nil _ _, hmark, h.isAtom.2⟩

namespace Number.Layout

theorem dump_keepsFraction : dumpLayout.keepsFraction := rfl

theorem text_of_not_finite {x : Float} (h : Binary.ofFloat? x = none) :
    dumpLayout.text x = "NaN" ∨ dumpLayout.text x = "-inf" ∨ dumpLayout.text x = "inf" := by
  rw [text, h]
  dsimp only
  split
  · exact .inl rfl
  split
  · exact .inr (.inl rfl)
  · exact .inr (.inr rfl)

/-- The characters of numbers are no marks. -/
theorem Marked.isAtom {cs : List Char} (h : Marked cs) : ∀ c ∈ cs, ¬ Sexp.isMark c := by
  intro c hc
  rcases h.chars c hc with hdigit | hmem
  · exact isMark_of_isWordChar (Lexeme.isWordChar_of_isDigit hdigit)
  · simp only [List.mem_cons, List.not_mem_nil, or_false] at hmem
    rcases hmem with rfl | rfl | rfl | rfl <;> decide

theorem leafText_of_finite {x : Float} {b : Binary} (hx : Binary.ofFloat? x = some b) :
    LeafText (dumpLayout.text x) := by
  obtain ⟨cs, hmarked, htext⟩ := marked_text dump_keepsFraction hx
  obtain ⟨c, hhead, hdigit⟩ := hmarked.digit
  obtain ⟨tail, htail⟩ := List.head?_eq_some_iff.1 hhead
  have hword : Lexeme.isWordChar c := Lexeme.isWordChar_of_isDigit hdigit
  have hat : c ≠ '@' := ne_of_isDigit hdigit rfl
  have hn : c ≠ 'n' := ne_of_isDigit hdigit rfl
  subst htail
  rcases htext with htext | htext
  · refine ⟨⟨by simp [htext], fun x hx => hmarked.isAtom x (htext ▸ hx)⟩, ⟨c, by simp [htext], hword⟩, ?_, ?_⟩
    · simpa [htext] using hat
    · intro heq
      rw [heq] at htext
      exact hn (List.cons.inj htext).1.symm
  · refine ⟨⟨by simp [htext], ?_⟩, ⟨c, by simp [htext], hword⟩, by simp [htext], ?_⟩
    · rw [htext, List.forall_mem_cons]
      exact ⟨by decide, hmarked.isAtom⟩
    · intro heq
      rw [heq] at htext
      exact absurd (List.cons.inj htext).1 (by decide)

theorem leafText_text (x : Float) : LeafText (dumpLayout.text x) := by
  cases hx : Binary.ofFloat? x with
  | some b => exact leafText_of_finite hx
  | none =>
    have hname {text : String} (htext : text = "NaN" ∨ text = "inf") : LeafText text := by
      rcases htext with rfl | rfl
      · exact (isName_of_all rfl).leafText (by decide)
      · exact (isName_of_all rfl).leafText (by decide)
    rcases text_of_not_finite hx with htext | htext | htext
    · exact hname (.inl htext)
    · rw [htext]
      exact ⟨⟨by decide, by simp [Sexp.isMark]⟩, ⟨'i', by simp, by decide⟩, by decide, by decide⟩
    · exact hname (.inr htext)

end Number.Layout

/-- An integer that is not negative is written with digits only. -/
theorem exists_digits {n : Int64} (h : 0 ≤ n) :
    ∃ k : Nat, n.toInt = k ∧ (toString n.toInt).toList = Nat.toDigits 10 k := by
  rw [Int64.le_iff_toInt_le] at h
  obtain ⟨k, hk⟩ := Int.eq_ofNat_of_zero_le h
  refine ⟨k, hk, ?_⟩
  rw [hk]
  exact Nat.toList_repr

theorem leafText_of_digits {n : Int64} (h : 0 ≤ n) : LeafText (toString n.toInt) := by
  obtain ⟨k, -, htext⟩ := exists_digits h
  have hdigits := Number.isDigit_of_mem_toDigits (n := k)
  have hword (c : Char) (hc : c ∈ Nat.toDigits 10 k) : Lexeme.isWordChar c :=
    Lexeme.isWordChar_of_isDigit (hdigits c hc)
  obtain ⟨c, cs, hcs⟩ := List.exists_cons_of_ne_nil (Nat.toDigits_ne_nil (n := k) (b := 10))
  rw [hcs] at hdigits hword htext
  have hc := hdigits c List.mem_cons_self
  refine ⟨⟨htext ▸ List.cons_ne_nil c cs, fun x hx => isMark_of_isWordChar (hword x (htext ▸ hx))⟩,
    ⟨c, htext ▸ List.mem_cons_self, hword c List.mem_cons_self⟩, ?_, fun heq => ?_⟩
  · rw [htext]
    rintro ⟨⟩
    exact absurd hc (by decide)
  · rw [heq] at htext
    obtain rfl : 'n' = c := (List.cons.inj htext).1
    exact absurd hc (by decide)

theorem isName_of_mem {text : String} (h : text ∈ ["true", "false", "null", Expr.rootWord]) : IsName text := by
  simp only [List.mem_cons, List.not_mem_nil, or_false] at h
  rcases h with rfl | rfl | rfl | rfl <;> exact isName_of_all rfl

namespace Expr

theorem leafText_of_sexp {e : Expr} (h : e.Readable) {text : String} (ht : e.sexp = .atom text) :
    LeafText text := by
  have hword {word : String} (hmem : word ∈ ["true", "false", "null", rootWord]) : LeafText word := by
    refine (isName_of_mem hmem).leafText ?_
    rintro rfl
    exact absurd hmem (by decide)
  cases e with
  | int n =>
    cases ht
    exact leafText_of_digits h.1
  | float x =>
    cases ht
    exact Number.Layout.leafText_text x
  | text s => cases ht
  | bool b =>
    cases ht
    cases b <;> exact hword (by simp [boolText])
  | null =>
    cases ht
    exact hword (by simp)
  | var name =>
    cases ht
    refine h.2.1.leafText fun heq => h.2.2 ?_
    rw [heq]
    decide
  | system name =>
    cases ht
    have hname : IsName name := h.2
    obtain ⟨c, cs, hcs, -, hc⟩ := hname.exists_cons
    have hlist : ("$" ++ name).toList = '$' :: name.toList := String.toList_append
    refine ⟨isAtom_append '$' (by decide) hname, ⟨c, ?_, hc⟩, by simp [hlist], fun heq => ?_⟩
    · rw [hlist, hcs]
      exact List.mem_cons_of_mem _ List.mem_cons_self
    · rw [heq] at hlist
      exact absurd (List.cons.inj hlist).1 (by decide)
  | serviceRoot =>
    cases ht
    exact hword (by simp)
  | chain operands operators => cases operands <;> simp [sexp] at ht
  | field | index | call | not | negate => simp [sexp] at ht

end Expr

/-! ## Trees of parsed programs -/

/-- Whether a text is an atom can be seen from its characters. -/
theorem isAtom_of_all {text : String}
    (h : (!text.toList.isEmpty && text.toList.all fun c => !Sexp.isMark c) = true) : Sexp.IsAtom text := by
  rw [Bool.and_eq_true, Bool.not_eq_true', List.isEmpty_eq_false_iff, List.all_eq_true] at h
  exact ⟨h.1, fun c hc => by simpa using h.2 c hc⟩

theorem isAtom_of_mem_tiers {tier : List String} (htier : tier ∈ Parser.tiers) {word : String} (h : word ∈ tier) :
    Sexp.IsAtom word := by
  have hall : ∀ tier ∈ Parser.tiers, ∀ word ∈ tier,
      (!word.toList.isEmpty && word.toList.all fun c => !Sexp.isMark c) = true := by decide
  exact isAtom_of_all (hall tier htier word h)

namespace Expr

mutual

theorem clean_sexp (e : Expr) (h : e.Every Readable) : e.sexp.Clean := by
  match e with
  | int _ | float _ | bool _ | null | var _ | system _ | serviceRoot =>
    exact (leafText_of_sexp (h _ List.mem_cons_self) rfl).isAtom
  | text s => trivial
  | chain [] operators =>
    rw [sexp]
    trivial
  | chain (first :: rest) operators =>
    obtain ⟨hchain, hoperands⟩ := every_chain.1 h
    obtain ⟨tier, htier, hall⟩ := Joined.tier hchain.1
    rw [List.forall_mem_cons] at hoperands
    rw [sexp]
    exact ⟨clean_sexp first hoperands.1, cleanAll_linkSexps rest operators hoperands.2 fun t ht =>
      isAtom_of_mem_tiers htier (hall t ht)⟩
  | field root name =>
    obtain ⟨hfield, hroot⟩ := every_field.1 h
    have hname : IsName name := hfield.2
    rw [sexp]
    exact ⟨isAtom_of_all rfl, clean_sexp root hroot, hname.isAtom, trivial⟩
  | index root key =>
    obtain ⟨-, hroot, hkey⟩ := every_index.1 h
    rw [sexp]
    exact ⟨isAtom_of_all rfl, clean_sexp root hroot, clean_sexp key hkey, trivial⟩
  | call root args =>
    obtain ⟨-, hroot, hargs⟩ := every_call.1 h
    rw [sexp]
    exact ⟨isAtom_of_all rfl, clean_sexp root hroot, cleanAll_sexps args hargs⟩
  | not e =>
    obtain ⟨-, he⟩ := every_not.1 h
    rw [sexp]
    exact ⟨isAtom_of_all rfl, clean_sexp e he, trivial⟩
  | negate e =>
    obtain ⟨-, he⟩ := every_negate.1 h
    rw [sexp]
    exact ⟨isAtom_of_all rfl, clean_sexp e he, trivial⟩

theorem cleanAll_linkSexps (es : List Expr) (operators : List Token) (h : ∀ e ∈ es, e.Every Readable)
    (hoperators : ∀ t ∈ operators, Sexp.IsAtom t.text) : Sexp.CleanAll (linkSexps es operators) := by
  match es, operators with
  | [], _ =>
    rw [linkSexps]
    trivial
  | e :: rest, [] =>
    rw [List.forall_mem_cons] at h
    rw [linkSexps]
    exact ⟨clean_sexp e h.1, cleanAll_linkSexps rest [] h.2 hoperators⟩
  | e :: rest, operator :: operators =>
    rw [List.forall_mem_cons] at h hoperators
    rw [linkSexps]
    exact ⟨hoperators.1, clean_sexp e h.1, cleanAll_linkSexps rest operators h.2 hoperators.2⟩

theorem cleanAll_sexps (es : List Expr) (h : ∀ e ∈ es, e.Every Readable) : Sexp.CleanAll (sexps es) := by
  match es with
  | [] => trivial
  | e :: rest =>
    rw [List.forall_mem_cons] at h
    exact ⟨clean_sexp e h.1, cleanAll_sexps rest h.2⟩

end

end Expr

namespace Action

/-- The labels that a statement names. -/
def labels : Action → List String
  | label name | jump name => [name]
  | branch _ whenTrue whenFalse => whenTrue :: whenFalse.toList
  | _ => []

structure Readable (action : Action) : Prop where
  exprs : ∀ e ∈ action.exprs, e.Every Expr.Readable
  labels : ∀ name ∈ action.labels, IsName name

theorem clean_labelSexp {name : String} (h : IsName name) : (labelSexp name).Clean :=
  isAtom_append '@' (by decide) h

theorem clean_sexp {action : Action} (h : action.Readable) : action.sexp.Clean := by
  obtain ⟨hexprs, hlabels⟩ := h
  have hclean (e : Expr) (he : e ∈ action.exprs) : e.sexp.Clean := e.clean_sexp (hexprs e he)
  cases action with
  | label name => exact clean_labelSexp (hlabels name List.mem_cons_self)
  | branch condition whenTrue whenFalse =>
    have htrue := clean_labelSexp (hlabels whenTrue List.mem_cons_self)
    have hcondition := hclean condition List.mem_cons_self
    cases whenFalse with
    | none => exact ⟨isAtom_of_all rfl, hcondition, htrue, trivial⟩
    | some whenFalse =>
      have hfalse := clean_labelSexp (hlabels whenFalse (List.mem_cons_of_mem _ List.mem_cons_self))
      exact ⟨isAtom_of_all rfl, hcondition, htrue, hfalse, trivial⟩
  | jump name => exact ⟨isAtom_of_all rfl, clean_labelSexp (hlabels name List.mem_cons_self), trivial⟩
  | print e => exact ⟨isAtom_of_all rfl, hclean e List.mem_cons_self, trivial⟩
  | assign target value =>
    exact ⟨isAtom_of_all rfl, hclean target List.mem_cons_self,
      hclean value (List.mem_cons_of_mem _ List.mem_cons_self), trivial⟩
  | evaluate e => exact hclean e List.mem_cons_self

end Action

/-! ## Reading atoms -/

/-- The text is that of a finite float. -/
def FloatText (text : String) : Prop :=
  ∃ x, (Number.Binary.ofFloat? x).isSome ∧ dumpLayout.text x = text

/-- The literal or variable that a word stands for. -/
def readWord (text : String) : Expr :=
  if text = "true" then .bool true
  else if text = "false" then .bool false
  else if text = "null" then .null
  else if text = Expr.rootWord then .serviceRoot
  else .var text

open Classical in
/-- The literal or name that an atom stands for. -/
noncomputable def readAtom (text : String) : Expr :=
  if h : FloatText text then .float h.choose
  else if text.toList.all Char.isDigit then .int (Int64.ofNat (Number.natOfDigits text.toList))
  else if text.toList.head? = some '$' then .system (String.ofList text.toList.tail)
  else readWord text

theorem FloatText.exists_marked {text : String} (h : FloatText text) :
    ∃ cs, Number.Layout.Marked cs ∧ (text.toList = cs ∨ text.toList = '-' :: cs) := by
  obtain ⟨x, hfinite, rfl⟩ := h
  obtain ⟨b, hb⟩ := Option.isSome_iff_exists.1 hfinite
  exact Number.Layout.marked_text Number.Layout.dump_keepsFraction hb

/-- What does not start like a number is no float. -/
theorem not_floatText_of_head {text : String} {c : Char} (hc : text.toList.head? = some c) (hdigit : ¬ c.isDigit)
    (hsign : c ≠ '-') : ¬ FloatText text := by
  intro h
  obtain ⟨cs, hmarked, htext⟩ := h.exists_marked
  obtain ⟨d, hd, hdigit'⟩ := hmarked.digit
  rcases htext with htext | htext
  · rw [htext, hd] at hc
    exact hdigit (Option.some.inj hc ▸ hdigit')
  · rw [htext] at hc
    exact hsign (Option.some.inj hc).symm

theorem not_floatText_of_digits {text : String} (h : ∀ c ∈ text.toList, c.isDigit) : ¬ FloatText text := by
  intro hfloat
  obtain ⟨cs, hmarked, htext⟩ := hfloat.exists_marked
  have hsub : ∀ c ∈ cs, c.isDigit := by
    rcases htext with htext | htext
    · exact htext ▸ h
    · rw [htext] at h
      exact (List.forall_mem_cons.1 h).2
  rcases hmarked.mark with hmark | hmark <;> exact absurd (hsub _ hmark) (by decide)

theorem not_floatText_minus_inf : ¬ FloatText "-inf" := by
  intro h
  obtain ⟨cs, hmarked, htext⟩ := h.exists_marked
  obtain ⟨c, hc, hdigit⟩ := hmarked.digit
  rcases htext with rfl | htext
  · obtain rfl : '-' = c := Option.some.inj hc
    exact absurd hdigit (by decide)
  · obtain rfl := (List.cons.inj htext).2
    obtain rfl : 'i' = c := Option.some.inj hc
    exact absurd hdigit (by decide)

theorem readAtom_of_head {text : String} {c : Char} (hc : text.toList.head? = some c) (hdigit : ¬ c.isDigit)
    (hfloat : ¬ FloatText text) (hsign : c ≠ '$') : readAtom text = readWord text := by
  have hall : ¬ text.toList.all Char.isDigit := by
    obtain ⟨cs, hcs⟩ := List.head?_eq_some_iff.1 hc
    rw [List.all_eq_true]
    exact fun h => hdigit (h c (hcs ▸ List.mem_cons_self))
  have hhead : text.toList.head? ≠ some '$' := fun h => hsign (Option.some.inj (hc.symm.trans h))
  rw [readAtom, dif_neg hfloat, if_neg hall, if_neg hhead]

theorem IsName.readAtom_eq {text : String} (h : IsName text) : readAtom text = readWord text := by
  obtain ⟨c, cs, hcs, hdigit, hword⟩ := h.exists_cons
  have hc : text.toList.head? = some c := by rw [hcs]; rfl
  refine readAtom_of_head hc hdigit (not_floatText_of_head hc hdigit ?_) ?_
  · rintro rfl
    exact absurd hword (by decide)
  · rintro rfl
    exact absurd hword (by decide)

namespace Expr

theorem readAtom_int {n : Int64} (h : 0 ≤ n) : readAtom (toString n.toInt) = .int n := by
  obtain ⟨k, hk, htext⟩ := exists_digits h
  have hdigits := Number.isDigit_of_mem_toDigits (n := k)
  rw [← htext] at hdigits
  rw [readAtom, dif_neg (not_floatText_of_digits hdigits), if_pos (List.all_eq_true.2 hdigits), htext,
    Number.natOfDigits_toDigits, ← n.ofInt_toInt, hk]
  rfl

theorem readAtom_float (x : Float) : readAtom (dumpLayout.text x) = (float x).asDumped := by
  rw [asDumped]
  split
  · next hfinite =>
    have hfloat : FloatText (dumpLayout.text x) := ⟨x, hfinite, rfl⟩
    obtain ⟨hchosen, htext⟩ := hfloat.choose_spec
    obtain ⟨b, hb⟩ := Option.isSome_iff_exists.1 hfinite
    obtain ⟨c, hc⟩ := Option.isSome_iff_exists.1 hchosen
    rw [readAtom, dif_pos hfloat, Number.Layout.text_inj Number.Layout.dump_keepsFraction hc hb htext]
  · next hfinite =>
    rcases Number.Layout.text_of_not_finite (Option.not_isSome_iff_eq_none.1 hfinite) with htext | htext | htext
    · rw [htext, readAtom_of_head (c := 'N') rfl (by decide)
        (not_floatText_of_head (c := 'N') rfl (by decide) (by decide)) (by decide)]
      rfl
    · rw [htext, readAtom_of_head (c := '-') rfl (by decide) not_floatText_minus_inf (by decide)]
      rfl
    · rw [htext, readAtom_of_head (c := 'i') rfl (by decide)
        (not_floatText_of_head (c := 'i') rfl (by decide) (by decide)) (by decide)]
      rfl

theorem readAtom_var {name : String} (h : IsName name) (hfree : name ∉ Grammar.reserved) :
    readAtom name = .var name := by
  simp only [Grammar.reserved, List.mem_cons, List.not_mem_nil, or_false, not_or] at hfree
  obtain ⟨htrue, hfalse, hnull, -, hroot⟩ := hfree
  rw [h.readAtom_eq, readWord, if_neg htrue, if_neg hfalse, if_neg hnull, if_neg hroot]

theorem readAtom_system {name : String} : readAtom ("$" ++ name) = .system name := by
  have hlist : ("$" ++ name).toList = '$' :: name.toList := String.toList_append
  have hhead : ("$" ++ name).toList.head? = some '$' := by rw [hlist]; rfl
  have hall : ¬ ("$" ++ name).toList.all Char.isDigit := by
    rw [hlist]
    simp
  rw [readAtom, dif_neg (not_floatText_of_head hhead (by decide) (by decide)), if_neg hall, if_pos hhead, hlist,
    List.tail_cons, String.ofList_toList]

/-- An atom is read as the literal or name that was dumped. -/
theorem readAtom_of_sexp {e : Expr} (h : e.Readable) {text : String} (ht : e.sexp = .atom text) :
    readAtom text = e.asDumped := by
  cases e with
  | int n =>
    cases ht
    exact readAtom_int h.1
  | float x =>
    cases ht
    exact readAtom_float x
  | text s => cases ht
  | bool b =>
    cases ht
    cases b
    · exact (isName_of_mem (by simp [boolText])).readAtom_eq
    · exact (isName_of_mem (by simp [boolText])).readAtom_eq
  | null =>
    cases ht
    exact (isName_of_mem (by simp)).readAtom_eq
  | var name =>
    cases ht
    exact readAtom_var h.2.1 h.2.2
  | system name =>
    cases ht
    exact readAtom_system
  | serviceRoot =>
    cases ht
    exact (isName_of_mem (by simp)).readAtom_eq
  | chain operands operators => cases operands <;> simp [sexp] at ht
  | field | index | call | not | negate => simp [sexp] at ht

end Expr

end GotoScript
