import GotoScript.Error.Compile
import GotoScript.Token.Table

/-!
# Token streams

A stream reads a token table one token at a time. Two entries that touch on one line and together
spell `==`, `!=`, `<=` or `>=` make one token of width two; every other entry is a token of its own.
`tokens` is the list of all that a stream has still to give.
-/

namespace GotoScript

structure TokenStream where
  table : TokenTable
  index : Nat := 0
deriving DecidableEq, Repr

namespace TokenStream

/-- The operators that are spelled with two marks. -/
def joinedOperators : List String := ["==", "!=", "<=", ">="]

def file (s : TokenStream) : String :=
  s.table.file

/-- Where the entry at `index` starts. A missing line or column reads as zero. -/
def positionAt (t : TokenTable) (index : Nat) : Position :=
  ⟨t.file, t.lines[index]?.getD 0, t.columns[index]?.getD 0⟩

/-- The entries at `index` and after it stand side by side on one line. -/
def touches (t : TokenTable) (index : Nat) : Bool :=
  match t.lines[index]?, t.lines[index + 1]?, t.columns[index]?, t.columns[index + 1]? with
  | some line, some line', some column, some column' => line = line' && column + 1 = column'
  | _, _, _, _ => false

/-- The token that starts at the entry `index`. -/
def tokenAt? (t : TokenTable) (index : Nat) : Option Token :=
  match t.values[index]?, t.values[index + 1]? with
  | none, _ => none
  | some text, none => some ⟨text, positionAt t index, 1⟩
  | some text, some next =>
    if text ++ next ∈ joinedOperators ∧ touches t index then
      some ⟨text ++ next, positionAt t index, 2⟩
    else
      some ⟨text, positionAt t index, 1⟩

/-! ## Reading -/

def peek (s : TokenStream) : Option Token :=
  tokenAt? s.table s.index

def pop (s : TokenStream) : Option Token × TokenStream :=
  match s.peek with
  | none => (none, s)
  | some token => (some token, { s with index := s.index + token.width.toNat })

def peekText (s : TokenStream) : Option String :=
  s.peek.map (·.text)

def hasMore (s : TokenStream) : Bool :=
  s.index < s.table.size

def isNext (s : TokenStream) (text : String) : Bool :=
  s.peekText = some text

/-- Takes the next token if its text is `text`. -/
def popIfPresent (s : TokenStream) (text : String) : Bool × TokenStream :=
  if s.isNext text then (true, s.pop.2) else (false, s)

/-- Takes the next token if its text is `text`; another token stays in place. -/
def popExpected (s : TokenStream) (text : String) : Except CompileError Token × TokenStream :=
  match CompileError.requireText s.file text s.peek with
  | .ok token => (.ok token, s.pop.2)
  | .error e => (.error e, s)

/-- Takes the next token, which should be a word. -/
def popWord (s : TokenStream) : Except CompileError Token × TokenStream :=
  (CompileError.requireWord s.file s.peek, s.pop.2)

/-! ## What is left to read -/

theorem tokenAt?_eq_some_lt {t : TokenTable} {index : Nat} {token : Token}
    (h : tokenAt? t index = some token) : index < t.size := by
  unfold tokenAt? at h
  by_cases hi : index < t.values.size
  · exact hi
  · simp [Array.getElem?_eq_none (Nat.le_of_not_lt hi)] at h

theorem tokenAt?_width {t : TokenTable} {index : Nat} {token : Token}
    (h : tokenAt? t index = some token) : token.width = 1 ∨ token.width = 2 := by
  unfold tokenAt? at h
  split at h
  · simp at h
  · cases h; exact .inl rfl
  · split at h <;> cases h
    · exact .inr rfl
    · exact .inl rfl

/-- The tokens from the entry `index` on. -/
def tokensFrom (t : TokenTable) (index : Nat) : List Token :=
  match _h : tokenAt? t index with
  | none => []
  | some token => token :: tokensFrom t (index + token.width.toNat)
termination_by t.size - index
decreasing_by
  have := tokenAt?_eq_some_lt _h
  rcases tokenAt?_width _h with hw | hw <;> simp [hw] <;> omega

/-- The tokens that are still to come. -/
def tokens (s : TokenStream) : List Token :=
  tokensFrom s.table s.index

end TokenStream

end GotoScript
