import GotoScript.Token.Lexeme

/-!
# What the items of a text look like

The scanner takes one item after another from the front of a text. This module says what an item is
without the scanner:

* `QuoteBody q` : what can stand between two quotes `q`, a backslash taking the next character along;
* `ClosesAtEnd` : a text up to the first closing mark of a block comment;
* `Form keep kind chars rest` : `chars` is an item of that kind, and `rest` follows it;
* `firstItem?_form`, `firstItem?_of_form` : the scanner takes items of these forms, and no others;
* `Form.apart` : no word character follows an item that ends in one;
* `scanFrom_append` : scanning goes item by item.
-/

namespace GotoScript.Lexeme

theorem isWordChar_of_isDigit {c : Char} (h : c.isDigit) : isWordChar c := by
  change ((c.isAlpha || c.isDigit) || decide (c = '_')) = true
  rw [h, Bool.or_true, Bool.true_or]

/-! ## Quoted texts and block comments -/

/-- A text without a quote `q` that would close it. -/
inductive QuoteBody (q : Char) : List Char → Prop where
  | nil : QuoteBody q []
  | escape {c : Char} {cs : List Char} (h : QuoteBody q cs) : QuoteBody q ('\\' :: c :: cs)
  | plain {c : Char} {cs : List Char} (hc : c ≠ '\\') (hq : c ≠ q) (h : QuoteBody q cs) :
    QuoteBody q (c :: cs)

theorem quoteBody_of_closeQuote {q : Char} {cs body after : List Char}
    (h : closeQuote q cs = some (body, after)) :
    ∃ inner, body = inner ++ [q] ∧ QuoteBody q inner := by
  fun_induction closeQuote q cs generalizing body after with
  | case1 => cases h
  | case2 => cases h
  | case3 c rest ih =>
    obtain ⟨⟨b, a⟩, hb, he⟩ := Option.map_eq_some_iff.1 h
    cases he
    obtain ⟨inner, rfl, hi⟩ := ih hb
    exact ⟨'\\' :: c :: inner, rfl, .escape hi⟩
  | case4 =>
    cases h
    exact ⟨[], rfl, .nil⟩
  | case5 c rest hlone hpair hq ih =>
    obtain ⟨⟨b, a⟩, hb, he⟩ := Option.map_eq_some_iff.1 h
    cases he
    obtain ⟨inner, rfl, hi⟩ := ih hb
    have hc : c ≠ '\\' := by
      rintro rfl
      cases rest with
      | nil => exact hlone rfl rfl
      | cons d ds => exact hpair d ds rfl rfl
    exact ⟨c :: inner, rfl, .plain hc hq hi⟩

theorem closeQuote_of_quoteBody {q : Char} {inner : List Char} (hq : q ≠ '\\')
    (h : QuoteBody q inner) (after : List Char) :
    closeQuote q (inner ++ q :: after) = some (inner ++ [q], after) := by
  induction h with
  | nil =>
    cases after <;> simp [closeQuote, hq]
  | escape _ ih => simp [closeQuote, ih]
  | @plain c cs hc hne _ ih => simp [closeQuote, hc, hne, ih]

/-- The closing mark of a block comment ends the text and stands nowhere before. -/
def ClosesAtEnd (body : List Char) : Prop :=
  ∃ inner, body = inner ++ ['*', '/'] ∧ ¬ ['*', '/'] <:+: inner ++ ['*']

theorem closesAtEnd_of_closeComment {cs body after : List Char}
    (h : closeComment cs = some (body, after)) : ClosesAtEnd body := by
  fun_induction closeComment cs generalizing body after with
  | case1 => cases h
  | case2 rest =>
    cases h
    exact ⟨[], rfl, by decide⟩
  | case3 c rest hno ih =>
    obtain ⟨⟨b, a⟩, hb, he⟩ := Option.map_eq_some_iff.1 h
    cases he
    obtain ⟨inner, rfl, hi⟩ := ih hb
    refine ⟨c :: inner, rfl, ?_⟩
    rw [List.cons_append, List.infix_cons_iff]
    rintro (hp | hp)
    · -- the mark would stand at the front, where the scanner looked for it
      obtain ⟨rfl, hslash⟩ := List.cons_prefix_cons.1 hp
      have hrest := closeComment_split hb
      cases inner with
      | nil => simp at hslash
      | cons d ds =>
        obtain ⟨rfl, -⟩ := List.cons_prefix_cons.1 hslash
        exact hno _ rfl hrest.symm
    · exact hi hp

theorem closeComment_of_closesAtEnd {body : List Char} (h : ClosesAtEnd body)
    (after : List Char) : closeComment (body ++ after) = some (body, after) := by
  obtain ⟨inner, rfl, hno⟩ := h
  induction inner with
  | nil => rfl
  | cons c cs ih =>
    rw [List.cons_append, List.infix_cons_iff, not_or] at hno
    have hopen : ∀ rest, c = '*' → cs ++ ['*', '/'] ++ after = '/' :: rest → False := by
      rintro rest rfl hrest
      cases cs with
      | nil => simp at hrest
      | cons d ds =>
        obtain rfl : d = '/' := (List.cons.inj hrest).1
        exact hno.1 (by simp)
    rw [List.cons_append, List.cons_append, closeComment, ih hno.2]
    · rfl
    · exact hopen

/-! ## Items -/

theorem isBlank_not_word {keep : Bool} {c : Char} (h : isBlank keep c) : isWordChar c = false := by
  simp only [isBlank, Bool.or_eq_true, Bool.and_eq_true, decide_eq_true_eq] at h
  rcases h with (rfl | rfl) | ⟨rfl, -⟩ <;> rfl

theorem isQuote_not_word {c : Char} (h : isQuote c) : isWordChar c = false := by
  simp only [isQuote, Bool.or_eq_true, decide_eq_true_eq] at h
  rcases h with rfl | rfl <;> rfl

theorem isQuote_not_blank (keep : Bool) {c : Char} (h : isQuote c) : ¬ isBlank keep c := by
  simp only [isQuote, Bool.or_eq_true, decide_eq_true_eq] at h
  rcases h with rfl | rfl <;> simp [isBlank]

theorem isQuote_ne {c : Char} (h : isQuote c) : c ≠ '/' ∧ c ≠ '\\' := by
  simp only [isQuote, Bool.or_eq_true, decide_eq_true_eq] at h
  rcases h with rfl | rfl <;> decide

/-- A character that makes a lexeme by itself. -/
structure IsMark (keep : Bool) (c : Char) : Prop where
  blank : isBlank keep c = false
  quote : isQuote c = false
  word : isWordChar c = false
  lineEnd : c ≠ '\n'

/-- `chars` is an item of the given kind where `rest` follows it. Runs of blanks and words, and line
comments, are as long as they can be. -/
inductive Form (keep : Bool) : Option Kind → List Char → List Char → Prop where
  | blanks {chars rest : List Char} (hne : chars ≠ []) (hall : ∀ c ∈ chars, isBlank keep c)
    (hnext : ∀ c ∈ rest.head?, isBlank keep c = false) : Form keep none chars rest
  | lineComment {body rest : List Char} (hbody : '\n' ∉ body) (hnext : ∀ c ∈ rest.head?, c = '\n') :
    Form keep none ('/' :: '/' :: body) rest
  | blockComment {body rest : List Char} (hbody : ClosesAtEnd body) :
    Form keep none ('/' :: '*' :: body) rest
  | word {chars rest : List Char} (hne : chars ≠ []) (hall : ∀ c ∈ chars, isWordChar c)
    (hnext : ∀ c ∈ rest.head?, isWordChar c = false) : Form keep (some .word) chars rest
  | quoted {q : Char} {inner rest : List Char} (hq : isQuote q) (hbody : QuoteBody q inner) :
    Form keep (some .quoted) (q :: (inner ++ [q])) rest
  | lineEnd {rest : List Char} (hkeep : keep = true) : Form keep (some .lineEnd) ['\n'] rest
  | mark {c : Char} {rest : List Char} (hc : IsMark keep c)
    (hnext : c = '/' → ∀ d ∈ rest.head?, d ≠ '/' ∧ d ≠ '*') : Form keep (some .mark) [c] rest

theorem Form.ne_nil {keep : Bool} {kind : Option Kind} {chars rest : List Char}
    (h : Form keep kind chars rest) : chars ≠ [] := by
  cases h with
  | blanks hne => exact hne
  | word hne => exact hne
  | _ => simp

theorem of_mem_cons_takeWhile {p : Char → Bool} {c d : Char} {cs : List Char} (hc : p c)
    (hd : d ∈ c :: cs.takeWhile p) : p d := by
  rcases List.mem_cons.1 hd with rfl | hd
  · exact hc
  · exact List.all_eq_true.1 List.all_takeWhile d hd

theorem head?_dropWhile_false {p : Char → Bool} {d : Char} {cs : List Char}
    (hd : d ∈ (cs.dropWhile p).head?) : p d = false := by
  have h := List.head?_dropWhile_not p cs
  rw [Option.mem_def.1 hd] at h
  simpa using h

/-- The scanner takes items of the stated forms. -/
theorem firstItem?_form {keep : Bool} {c : Char} {cs : List Char} {item : Item}
    (h : firstItem? keep c cs = some item) : Form keep item.kind item.chars item.rest := by
  unfold firstItem? at h
  split at h
  · next hc =>
    cases h
    exact .blanks (by simp [run]) (fun d => of_mem_cons_takeWhile hc) fun d => head?_dropWhile_false
  next hblank =>
  split at h
  · next hc =>
    cases h
    obtain ⟨rfl, hcs⟩ := hc
    obtain ⟨ds, rfl⟩ := List.head?_eq_some_iff.1 hcs
    refine .lineComment (fun hmem => ?_) fun d hd => ?_
    · simpa using List.all_eq_true.1 List.all_takeWhile _ hmem
    · simpa using head?_dropWhile_false hd
  next hline =>
  split at h
  · obtain ⟨⟨b, a⟩, hb, rfl⟩ := Option.map_eq_some_iff.1 h
    exact .blockComment (closesAtEnd_of_closeComment hb)
  next hblock =>
  split at h
  · next hq =>
    obtain ⟨⟨b, a⟩, hb, rfl⟩ := Option.map_eq_some_iff.1 h
    obtain ⟨inner, rfl, hi⟩ := quoteBody_of_closeQuote hb
    exact .quoted hq hi
  next hquote =>
  split at h
  · next hc =>
    cases h
    exact .word (by simp [run]) (fun d => of_mem_cons_takeWhile hc) fun d => head?_dropWhile_false
  next hword =>
  split at h
  · next hc =>
    -- a line feed that is no blank is one that is kept
    subst hc
    cases h
    exact .lineEnd (by simpa [isBlank] using hblank)
  next hend =>
  cases h
  refine .mark ⟨by simpa using hblank, by simpa using hquote, by simpa using hword, hend⟩ ?_
  rintro rfl d hd
  constructor
  · rintro rfl
    exact hline ⟨rfl, hd⟩
  · rintro rfl
    exact hblock ⟨rfl, hd⟩

theorem takeWhile_append_head {p : Char → Bool} {l rest : List Char} (hl : ∀ c ∈ l, p c)
    (hrest : ∀ c ∈ rest.head?, p c = false) :
    (l ++ rest).takeWhile p = l ∧ (l ++ rest).dropWhile p = rest := by
  have hempty : rest.takeWhile p = [] ∧ rest.dropWhile p = rest := by
    cases rest with
    | nil => exact ⟨rfl, rfl⟩
    | cons c cs => simp [hrest c rfl]
  rw [List.takeWhile_append_of_pos hl, List.dropWhile_append_of_pos hl, hempty.1, hempty.2]
  exact ⟨List.append_nil l, rfl⟩

theorem run_append {kind : Option Kind} {p : Char → Bool} {c : Char} {cs rest : List Char}
    (hall : ∀ d ∈ c :: cs, p d) (hnext : ∀ d ∈ rest.head?, p d = false) :
    run kind p c (cs ++ rest) = ⟨kind, c :: cs, rest⟩ := by
  obtain ⟨htake, hdrop⟩ := takeWhile_append_head (fun d hd => hall d (.tail _ hd)) hnext
  unfold run
  rw [htake, hdrop]

/-- An item at the front of a text is what the scanner takes. -/
theorem firstItem?_of_form {keep : Bool} {kind : Option Kind} {c : Char} {cs rest : List Char}
    (h : Form keep kind (c :: cs) rest) :
    firstItem? keep c (cs ++ rest) = some ⟨kind, c :: cs, rest⟩ := by
  unfold firstItem?
  cases h with
  | blanks _ hall hnext => rw [if_pos (hall c (.head _)), run_append hall hnext]
  | @lineComment body _ hbody hnext =>
    have hall : ∀ d ∈ '/' :: '/' :: body, (decide (d ≠ '\n')) := by
      intro d hd
      rw [decide_eq_true_eq]
      rintro rfl
      simp [hbody] at hd
    rw [if_neg (by simp [isBlank]), if_pos ⟨rfl, rfl⟩, run_append hall]
    intro d hd
    simp [hnext d hd]
  | blockComment hbody =>
    rw [if_neg (by simp [isBlank]), if_neg (by simp), if_pos ⟨rfl, rfl⟩]
    simp [closeComment_of_closesAtEnd hbody]
  | word _ hall hnext =>
    have hword : isWordChar c := hall c (.head _)
    have hblank : ¬ isBlank keep c := fun h => by simp [isBlank_not_word h] at hword
    have hquote : ¬ isQuote c := fun h => by simp [isQuote_not_word h] at hword
    have hslash : c ≠ '/' := by
      rintro rfl
      cases hword
    rw [if_neg hblank, if_neg (by simp [hslash]), if_neg (by simp [hslash]), if_neg hquote,
      if_pos hword, run_append hall hnext]
  | @quoted q inner _ hq hbody =>
    obtain ⟨hslash, hescape⟩ := isQuote_ne hq
    rw [if_neg (isQuote_not_blank keep hq), if_neg (by simp [hslash]), if_neg (by simp [hslash]), if_pos hq]
    simp [closeQuote_of_quoteBody hescape hbody]
  | lineEnd hkeep =>
    subst hkeep
    rfl
  | mark hc hnext =>
    have hline : ¬ (c = '/' ∧ rest.head? = some '/') := fun h => (hnext h.1 _ h.2).1 rfl
    have hblock : ¬ (c = '/' ∧ rest.head? = some '*') := fun h => (hnext h.1 _ h.2).2 rfl
    simp only [List.nil_append, hc.blank, hc.quote, hc.word, if_neg hline, if_neg hblock,
      if_neg hc.lineEnd, Bool.false_eq_true, if_false]

/-! ## Word characters at the ends of items -/

/-- No word runs across the place between two texts. -/
def Apart (before after : List Char) : Prop :=
  ∀ c ∈ before.getLast?, ∀ d ∈ after.head?, isWordChar c → isWordChar d = false

/-- An item is cut off where no word runs on. -/
theorem Form.apart {keep : Bool} {kind : Option Kind} {chars rest : List Char}
    (h : Form keep kind chars rest) : Apart chars rest := by
  intro c hc d hd hword
  cases h with
  | blanks _ hall _ =>
    rw [isBlank_not_word (hall c (List.mem_of_mem_getLast? hc))] at hword
    cases hword
  | lineComment _ hnext =>
    obtain rfl := hnext d hd
    rfl
  | blockComment hbody =>
    obtain ⟨inner, rfl, -⟩ := hbody
    obtain rfl : '/' = c := by simpa [List.getLast?_cons] using hc
    cases hword
  | word _ _ hnext => exact hnext d hd
  | @quoted q inner _ hq _ =>
    obtain rfl : q = c := by simpa [List.getLast?_cons] using hc
    rw [isQuote_not_word hq] at hword
    cases hword
  | lineEnd =>
    obtain rfl : '\n' = c := by simpa using hc
    cases hword
  | @mark m _ hm _ =>
    obtain rfl : m = c := by simpa using hc
    rw [hm.word] at hword
    cases hword

/-! ## Item by item -/

/-- The lexemes that an item adds: one, or none if it has no kind. -/
def Item.lexemes (item : Item) (offset : Nat) : List Lexeme :=
  match item.kind with
  | none => []
  | some kind => [⟨kind, String.ofList item.chars, offset⟩]

/-- Scanning takes the items of a text one after another. -/
theorem scanFrom_append {keep : Bool} {kind : Option Kind} {chars rest : List Char}
    (h : Form keep kind chars rest) (offset : Nat) :
    scanFrom keep offset (chars ++ rest) =
      (scanFrom keep (offset + Text.byteLength chars) rest).map
        (Item.lexemes ⟨kind, chars, rest⟩ offset ++ ·) := by
  obtain ⟨c, cs, rfl⟩ := List.exists_cons_of_ne_nil h.ne_nil
  rw [List.cons_append, scanFrom]
  split
  · next hnone =>
    rw [firstItem?_of_form h] at hnone
    cases hnone
  · next item hitem =>
    rw [firstItem?_of_form h] at hitem
    cases hitem
    cases scanFrom keep (offset + Text.byteLength (c :: cs)) rest with
    | error e => rfl
    | ok later => cases kind <;> rfl

end GotoScript.Lexeme
