import GotoScript.Proofs.Scanning.Tokens
import GotoScript.Token.Reader

/-!
# Readers and lists of tokens

A reader keeps the token that it has looked ahead at, and goes over its table by widths. Neither shows: in any sequence
of calls it answers as a cursor on one list of tokens.

* `TokenCall` : what a reader can be asked; `TokenCall.answers`, `TokenCall.after` : calls one after another;
* `TokenCall.answer`, `TokenCall.takes` : what a list of tokens answers, and how many tokens a call takes from it;
* `TokenReader.Coherent` : the token that is kept is the next one; `TokenReader.onReader_gives` : a reader does as the
  stream below it would, which keeps nothing;
* `TokenStream.Shows`, `TokenReader.Shows` : the tokens that a stream and a reader have still to give;
* `TokenReader.refines_list` : the statement for all sequences of calls.
-/

namespace GotoScript

/-! ## Calls -/

/-- What a reader can be asked. -/
inductive TokenCall where
  | peek
  | pop
  | peekText
  | hasMore
  | isNext (text : String)
  | popIfPresent (text : String)
  | popExpected (text : String)
  | popWord

inductive TokenAnswer where
  | token (found : Option Token)
  | text (found : Option String)
  | verdict (holds : Bool)
  | taken (result : Except CompileError Token)

namespace TokenCall

def onReader (r : TokenReader) : TokenCall → TokenAnswer × TokenReader
  | peek => r.peek.map .token id
  | pop => r.pop.map .token id
  | peekText => r.peekText.map .text id
  | hasMore => (.verdict r.hasMore, r)
  | isNext text => (r.isNext text).map .verdict id
  | popIfPresent text => (r.popIfPresent text).map .verdict id
  | popExpected text => (r.popExpected text).map .taken id
  | popWord => r.popWord.map .taken id

def onStream (s : TokenStream) : TokenCall → TokenAnswer × TokenStream
  | peek => (.token s.peek, s)
  | pop => s.pop.map .token id
  | peekText => (.text s.peekText, s)
  | hasMore => (.verdict s.hasMore, s)
  | isNext text => (.verdict (s.isNext text), s)
  | popIfPresent text => (s.popIfPresent text).map .verdict id
  | popExpected text => (s.popExpected text).map .taken id
  | popWord => s.popWord.map .taken id

/-- What the tokens of a file answer. -/
def answer (file : String) (ts : List Token) : TokenCall → TokenAnswer
  | peek | pop => .token ts.head?
  | peekText => .text (ts.head?.map (·.text))
  | hasMore => .verdict (!ts.isEmpty)
  | isNext text | popIfPresent text => .verdict (ts.head?.map (·.text) = some text)
  | popExpected text =>
    .taken <| match ts with
      | [] => .error (.endOfFile file ("expected '" ++ text ++ "' but found <END-OF-FILE>"))
      | t :: _ =>
        if t.text = text then .ok t
        else .error
          (.atToken .unexpectedToken ("expected '" ++ text ++ "' but found '" ++ t.shown ++ "'") t)
  | popWord =>
    .taken <| match ts with
      | [] => .error (.endOfFile file "expected word but found <END-OF-FILE>")
      | t :: _ =>
        if t.isWord then .ok t
        else .error (.atToken .unexpectedToken ("expected word but found '" ++ t.shown ++ "'") t)

/-- How many tokens a call takes, if there are any: none to look at them, one if it is the right one, or one in any
case. -/
def takes (ts : List Token) : TokenCall → Nat
  | peek | peekText | hasMore | isNext _ => 0
  | popIfPresent text | popExpected text => if ts.head?.map (·.text) = some text then 1 else 0
  | pop | popWord => 1

def onList (file : String) (ts : List Token) (c : TokenCall) : TokenAnswer × List Token :=
  (c.answer file ts, ts.drop (c.takes ts))

section
variable {σ τ : Type}

/-- The answers to calls, one after another. -/
def answers (step : σ → TokenCall → TokenAnswer × σ) (s : σ) : List TokenCall → List TokenAnswer
  | [] => []
  | c :: later => (step s c).1 :: answers step (step s c).2 later

/-- The state after calls. -/
def after (step : σ → TokenCall → TokenAnswer × σ) (s : σ) : List TokenCall → σ
  | [] => s
  | c :: later => after step (step s c).2 later

/-- States that answer one call alike, and are alike after it, answer all calls alike. -/
theorem answers_eq_of_alike {step : σ → TokenCall → TokenAnswer × σ} {step' : τ → TokenCall → TokenAnswer × τ}
    {Alike : σ → τ → Prop}
    (hstep : ∀ s t c, Alike s t → (step s c).1 = (step' t c).1 ∧ Alike (step s c).2 (step' t c).2)
    {s : σ} {t : τ} (h : Alike s t) (calls : List TokenCall) :
    answers step s calls = answers step' t calls ∧ Alike (after step s calls) (after step' t calls) := by
  induction calls generalizing s t with
  | nil => exact ⟨rfl, h⟩
  | cons c later ih =>
    obtain ⟨hanswer, halike⟩ := hstep s t c h
    obtain ⟨hlater, hafter⟩ := ih halike
    exact ⟨by rw [answers, answers, hanswer, hlater], hafter⟩

end

end TokenCall

/-! ## The token that is kept -/

theorem TokenStream.pop_fst (s : TokenStream) : s.pop.1 = s.peek := by
  unfold pop
  cases s.peek <;> rfl

namespace TokenReader

/-- The token that is kept is the next one of the stream. -/
def Coherent (r : TokenReader) : Prop :=
  ∀ token, r.ahead = some token → r.stream.peek = some token

/-- The answer is `a`, and the reader is coherent and at the stream `s` afterwards. -/
def Gives {α : Type} (outcome : α × TokenReader) (a : α) (s : TokenStream) : Prop :=
  ∃ r, outcome = (a, r) ∧ r.stream = s ∧ r.Coherent

theorem Gives.map {α β : Type} {outcome : α × TokenReader} {a : α} {s : TokenStream}
    (h : Gives outcome a s) (f : α → β) : Gives (outcome.map f id) (f a) s := by
  obtain ⟨r, rfl, hstream, hcoherent⟩ := h
  exact ⟨r, rfl, hstream, hcoherent⟩

theorem coherent_of_ahead_eq_none {r : TokenReader} (h : r.ahead = none) : r.Coherent := by
  intro token htoken
  rw [h] at htoken
  cases htoken

section

variable {r : TokenReader} (h : r.Coherent)
include h

theorem peek_gives : Gives r.peek r.stream.peek r.stream := by
  unfold peek
  split
  · next token htoken =>
    rw [h token htoken]
    exact ⟨r, rfl, rfl, h⟩
  · exact ⟨_, rfl, rfl, fun _ htoken => htoken⟩

theorem pop_gives : Gives r.pop r.stream.pop.1 r.stream.pop.2 := by
  obtain ⟨r', hpeek, hstream, hcoherent⟩ := peek_gives h
  unfold pop TokenStream.pop
  rw [hpeek, ← hstream]
  cases r'.stream.peek with
  | none => exact ⟨r', rfl, rfl, hcoherent⟩
  | some token => exact ⟨_, rfl, rfl, coherent_of_ahead_eq_none rfl⟩

theorem peekText_gives : Gives r.peekText r.stream.peekText r.stream :=
  (peek_gives h).map _

theorem isNext_gives (text : String) : Gives (r.isNext text) (r.stream.isNext text) r.stream :=
  (peekText_gives h).map fun found => decide (found = some text)

theorem popIfPresent_gives (text : String) :
    Gives (r.popIfPresent text) (r.stream.popIfPresent text).1 (r.stream.popIfPresent text).2 := by
  obtain ⟨r', hnext, hstream, hcoherent⟩ := isNext_gives h text
  unfold popIfPresent TokenStream.popIfPresent
  rw [hnext, ← hstream]
  cases r'.stream.isNext text with
  | false => exact ⟨r', rfl, rfl, hcoherent⟩
  | true =>
    obtain ⟨r'', hpop, hstream', hcoherent'⟩ := pop_gives hcoherent
    refine ⟨r'', ?_, hstream', hcoherent'⟩
    dsimp only
    rw [hpop]
    rfl

theorem popIf_gives_of_accepted (accept : Token → Bool) {token : Token}
    (hnext : r.stream.peek = some token) (haccept : accept token) :
    Gives (r.popIf accept) (.ok token) r.stream.pop.2 := by
  obtain ⟨r', hpeek, hstream, hcoherent⟩ := peek_gives h
  obtain ⟨r'', hpop, hstream', hcoherent'⟩ := pop_gives hcoherent
  have hfirst : r'.stream.pop.1 = some token := by
    rw [TokenStream.pop_fst, hstream, hnext]
  unfold popIf
  rw [hpeek, hnext]
  dsimp only
  rw [if_pos haccept, hpop, hfirst, ← hstream]
  exact ⟨r'', rfl, hstream', hcoherent'⟩

/-- A token that is not accepted, or the lack of one, is shown and stays. -/
theorem popIf_gives_of_refused {accept : Token → Bool}
    (hrefuse : ∀ token ∈ r.stream.peek, ¬ accept token) :
    Gives (r.popIf accept) (.error r.stream.peek) r.stream := by
  obtain ⟨r', hpeek, hstream, hcoherent⟩ := peek_gives h
  unfold popIf
  rw [hpeek]
  cases hnext : r.stream.peek with
  | none => exact ⟨r', rfl, hstream, hcoherent⟩
  | some token =>
    obtain ⟨r'', hpeek', hstream', hcoherent'⟩ := peek_gives hcoherent
    dsimp only
    rw [if_neg (hrefuse token hnext), hpeek', hstream, hnext]
    exact ⟨r'', rfl, hstream'.trans hstream, hcoherent'⟩

theorem popExpected_gives (text : String) :
    Gives (r.popExpected text) (r.stream.popExpected text).1 (r.stream.popExpected text).2 := by
  unfold popExpected TokenStream.popExpected
  by_cases hfound : ∃ token ∈ r.stream.peek, token.text = text
  · obtain ⟨token, hnext, htext⟩ := hfound
    have haccept : decide (token.text = text) := decide_eq_true htext
    obtain ⟨r', hpop, hstream, hcoherent⟩ := popIf_gives_of_accepted h (·.text = text) hnext haccept
    have hrequire : CompileError.requireText r.stream.file text r.stream.peek = .ok token := by
      rw [hnext]
      exact if_pos htext
    rw [hpop, hrequire]
    exact ⟨r', rfl, hstream, hcoherent⟩
  · have hrefuse : ∀ token ∈ r.stream.peek, ¬ decide (token.text = text) := by
      intro token hnext haccept
      exact hfound ⟨token, hnext, of_decide_eq_true haccept⟩
    obtain ⟨r', hpop, hstream, hcoherent⟩ := popIf_gives_of_refused h hrefuse
    obtain ⟨e, hrequire⟩ : ∃ e, CompileError.requireText r.stream.file text r.stream.peek = .error e := by
      cases hnext : r.stream.peek with
      | none => exact ⟨_, rfl⟩
      | some token => exact ⟨_, if_neg fun htext => hfound ⟨token, hnext, htext⟩⟩
    rw [hpop, hrequire]
    dsimp only
    rw [hstream, hrequire]
    exact ⟨r', rfl, hstream, hcoherent⟩

theorem popWord_gives : Gives r.popWord r.stream.popWord.1 r.stream.popWord.2 := by
  obtain ⟨r', hpop, hstream, hcoherent⟩ := pop_gives h
  unfold popWord TokenStream.popWord
  rw [hpop, TokenStream.pop_fst]
  exact ⟨r', rfl, hstream, hcoherent⟩

end

/-- A coherent reader answers every call as the stream does that it is at. -/
theorem onReader_gives {r : TokenReader} (h : r.Coherent) (c : TokenCall) :
    Gives (c.onReader r) (c.onStream r.stream).1 (c.onStream r.stream).2 := by
  cases c with
  | peek => exact (peek_gives h).map _
  | pop => exact (pop_gives h).map _
  | peekText => exact (peekText_gives h).map _
  | hasMore => exact ⟨r, rfl, rfl, h⟩
  | isNext text => exact (isNext_gives h text).map _
  | popIfPresent text => exact (popIfPresent_gives h text).map _
  | popExpected text => exact (popExpected_gives h text).map _
  | popWord => exact (popWord_gives h).map _

end TokenReader

/-! ## The tokens that are left -/

namespace TokenStream

/-- A token is made of entries that the table has. -/
theorem add_width_le_of_tokenAt? {t : TokenTable} {index : Nat} {token : Token}
    (h : tokenAt? t index = some token) : index + token.width.toNat ≤ t.size := by
  have hlt := tokenAt?_eq_some_lt h
  unfold tokenAt? at h
  split at h
  · cases h
  · cases h
    exact hlt
  · next next hnext =>
    obtain ⟨hlt', -⟩ := Array.getElem?_eq_some_iff.1 hnext
    split at h <;> cases h
    · exact hlt'
    · exact hlt

/-- Every entry starts a token. -/
theorem tokenAt?_eq_none_iff {t : TokenTable} {index : Nat} :
    tokenAt? t index = none ↔ t.size ≤ index := by
  constructor
  · intro h
    unfold tokenAt? at h
    split at h
    · next hvalue => exact Array.getElem?_eq_none_iff.1 hvalue
    · cases h
    · split at h <;> cases h
  · intro hle
    cases htoken : tokenAt? t index with
    | none => rfl
    | some token => exact absurd (tokenAt?_eq_some_lt htoken) (Nat.not_lt.2 hle)

/-- The stream is in the table, and `ts` are the tokens that it has still to give. -/
structure Shows (entries : TokenTable) (s : TokenStream) (ts : List Token) : Prop where
  table : s.table = entries
  tokens : s.tokens = ts
  index_le : s.index ≤ entries.size

section

variable {table : TokenTable} {s : TokenStream} {ts : List Token} (h : Shows table s ts)
include h

theorem Shows.peek_eq : s.peek = ts.head? := by
  rw [← h.tokens]
  unfold peek TokenStream.tokens
  cases hnext : tokenAt? s.table s.index with
  | none => rw [tokensFrom_of_tokenAt?_eq_none hnext, List.head?_nil]
  | some token => rw [tokensFrom_of_tokenAt? hnext, List.head?_cons]

theorem Shows.hasMore_eq : s.hasMore = !ts.isEmpty := by
  have hnone : ts = [] ↔ s.table.size ≤ s.index := by
    rw [← List.head?_eq_none_iff, ← h.peek_eq]
    exact tokenAt?_eq_none_iff
  unfold hasMore
  by_cases hlt : s.index < s.table.size
  · rw [decide_eq_true hlt, List.isEmpty_eq_false_iff.2 (mt hnone.1 (Nat.not_le.2 hlt))]
    rfl
  · rw [decide_eq_false hlt, hnone.2 (Nat.not_lt.1 hlt)]
    rfl

theorem Shows.pop : Shows table s.pop.2 (ts.drop 1) := by
  obtain ⟨rfl, rfl, hle⟩ := h
  unfold TokenStream.pop
  cases hnext : s.peek with
  | none =>
    have htokens : s.tokens = [] := tokensFrom_of_tokenAt?_eq_none hnext
    exact ⟨rfl, by rw [htokens]; rfl, hle⟩
  | some token =>
    have htokens : s.tokens = token :: tokensFrom s.table (s.index + token.width.toNat) :=
      tokensFrom_of_tokenAt? hnext
    exact ⟨rfl, by rw [htokens]; rfl, add_width_le_of_tokenAt? hnext⟩

theorem Shows.peekText_eq : s.peekText = ts.head?.map (·.text) := by
  unfold peekText
  rw [h.peek_eq]

theorem Shows.isNext_eq (text : String) : s.isNext text = decide (ts.head?.map (·.text) = some text) := by
  unfold isNext
  rw [h.peekText_eq]

theorem Shows.popIfPresent (text : String) :
    (s.popIfPresent text).1 = decide (ts.head?.map (·.text) = some text) ∧
      Shows table (s.popIfPresent text).2
        (ts.drop (if ts.head?.map (·.text) = some text then 1 else 0)) := by
  unfold TokenStream.popIfPresent
  rw [h.isNext_eq]
  by_cases htext : ts.head?.map (·.text) = some text
  · rw [if_pos (decide_eq_true htext), if_pos htext]
    exact ⟨(decide_eq_true htext).symm, h.pop⟩
  · rw [if_neg (by simpa using htext), if_neg htext]
    exact ⟨(decide_eq_false htext).symm, h⟩

theorem Shows.popExpected (text : String) :
    TokenAnswer.taken (s.popExpected text).1 = TokenCall.answer table.file ts (.popExpected text) ∧
      Shows table (s.popExpected text).2
        (ts.drop (if ts.head?.map (·.text) = some text then 1 else 0)) := by
  have hfile : s.file = table.file := congrArg TokenTable.file h.table
  unfold TokenStream.popExpected TokenCall.answer
  rw [h.peek_eq, hfile]
  cases ts with
  | nil => exact ⟨rfl, h⟩
  | cons t rest =>
    unfold CompileError.requireText
    by_cases htext : t.text = text
    · simpa [htext] using h.pop
    · simpa [htext] using h

/-- A stream answers every call as the tokens do that it has still to give, and gives those that are left then. -/
theorem Shows.onStream (c : TokenCall) :
    (c.onStream s).1 = c.answer table.file ts ∧
      Shows table (c.onStream s).2 (ts.drop (c.takes ts)) := by
  cases c with
  | peek => exact ⟨congrArg TokenAnswer.token h.peek_eq, h⟩
  | pop => exact ⟨congrArg TokenAnswer.token (s.pop_fst.trans h.peek_eq), h.pop⟩
  | peekText => exact ⟨congrArg TokenAnswer.text h.peekText_eq, h⟩
  | hasMore => exact ⟨congrArg TokenAnswer.verdict h.hasMore_eq, h⟩
  | isNext text => exact ⟨congrArg TokenAnswer.verdict (h.isNext_eq text), h⟩
  | popIfPresent text =>
    obtain ⟨hanswer, hshows⟩ := h.popIfPresent text
    exact ⟨congrArg TokenAnswer.verdict hanswer, hshows⟩
  | popExpected text => exact h.popExpected text
  | popWord =>
    have hfile : s.file = table.file := congrArg TokenTable.file h.table
    refine ⟨?_, h.pop⟩
    simp only [TokenCall.onStream, popWord, h.peek_eq, hfile]
    cases ts <;> rfl

end

end TokenStream

/-! ## Sequences of calls -/

namespace TokenReader

/-- The reader is in the table, and `ts` are the tokens that it has still to give. -/
structure Shows (table : TokenTable) (r : TokenReader) (ts : List Token) : Prop where
  coherent : r.Coherent
  stream : r.stream.Shows table ts

theorem shows_ofTable (table : TokenTable) :
    Shows table (ofTable table) (TokenStream.mk table 0).tokens :=
  ⟨coherent_of_ahead_eq_none rfl, rfl, rfl, Nat.zero_le _⟩

theorem Shows.onReader {table : TokenTable} {r : TokenReader} {ts : List Token} (h : Shows table r ts)
    (c : TokenCall) :
    (c.onReader r).1 = (c.onList table.file ts).1 ∧ Shows table (c.onReader r).2 (c.onList table.file ts).2 := by
  obtain ⟨r', hcall, hstream, hcoherent⟩ := onReader_gives h.coherent c
  obtain ⟨hanswer, hshows⟩ := h.stream.onStream c
  rw [hcall]
  exact ⟨hanswer, hcoherent, hstream ▸ hshows⟩

/-- In every sequence of calls a reader answers as a cursor on one list of tokens, those of its table. Wherever the
calls have led, the index is in the table, there is more if there is a next token, and a call takes as many tokens as it
should; one that takes none changes no later answer. -/
theorem refines_list (table : TokenTable) (calls : List TokenCall) :
    let tokens := (TokenStream.mk table 0).tokens
    let r := TokenCall.after TokenCall.onReader (ofTable table) calls
    TokenCall.answers TokenCall.onReader (ofTable table) calls =
        TokenCall.answers (TokenCall.onList table.file) tokens calls ∧
      r.stream.index ≤ table.size ∧
      (r.hasMore ↔ r.peek.1 ≠ none) ∧
      ∀ c : TokenCall,
        (c.onReader r).2.stream.tokens = r.stream.tokens.drop (c.takes r.stream.tokens) ∧
        (c.takes r.stream.tokens = 0 → ∀ later,
          TokenCall.answers TokenCall.onReader (c.onReader r).2 later =
            TokenCall.answers TokenCall.onReader r later) := by
  intro tokens r
  have hstep : ∀ r ts c, Shows table r ts →
      (TokenCall.onReader r c).1 = (TokenCall.onList table.file ts c).1 ∧
        Shows table (TokenCall.onReader r c).2 (TokenCall.onList table.file ts c).2 :=
    fun r ts c h => h.onReader c
  obtain ⟨hanswers, hshows⟩ := TokenCall.answers_eq_of_alike hstep (shows_ofTable table) calls
  have hleft : Shows table r r.stream.tokens := hshows.stream.tokens ▸ hshows
  refine ⟨hanswers, hleft.stream.index_le, ?_, fun c => ?_⟩
  · obtain ⟨r', hpeek, -⟩ := peek_gives hleft.coherent
    have hmore : r.hasMore = !r.stream.tokens.isEmpty := hleft.stream.hasMore_eq
    rw [hpeek, hmore, hleft.stream.peek_eq]
    simp
  · obtain ⟨-, hcall⟩ := hleft.onReader c
    refine ⟨hcall.stream.tokens, fun hnone later => ?_⟩
    rw [TokenCall.onList, hnone, List.drop_zero] at hcall
    rw [(TokenCall.answers_eq_of_alike hstep hcall later).1, (TokenCall.answers_eq_of_alike hstep hleft later).1]

end TokenReader

end GotoScript
