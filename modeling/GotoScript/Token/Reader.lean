import GotoScript.Token.Stream

/-!
# Token readers

A reader goes over a token stream and looks one token ahead. The token it was asked for is kept until it is taken, so
that the entries of the table are put together only once. Looking ahead leaves the reader changed: every operation but
`hasMore` gives an answer and the reader as it is afterwards.
-/

namespace GotoScript

structure TokenReader where
  stream : TokenStream
  /-- The next token, if it was asked for and has not been taken. -/
  ahead : Option Token := none
deriving DecidableEq, Repr

namespace TokenReader

/-- The reader at the start of a table. -/
def ofTable (table : TokenTable) : TokenReader :=
  ⟨⟨table, 0⟩, none⟩

/-- The next token. It is put together only if none is kept. -/
def peek (r : TokenReader) : Option Token × TokenReader :=
  match r.ahead with
  | some token => (some token, r)
  | none => (r.stream.peek, { r with ahead := r.stream.peek })

/-- Takes the next token. Nothing is kept then, and the index moves on by the token's width. -/
def pop (r : TokenReader) : Option Token × TokenReader :=
  match r.peek with
  | (none, r) => (none, r)
  | (some token, r) =>
    (some token, ⟨{ r.stream with index := r.stream.index + token.width.toNat }, none⟩)

def peekText (r : TokenReader) : Option String × TokenReader :=
  (r.peek.1.map (·.text), r.peek.2)

def hasMore (r : TokenReader) : Bool :=
  r.stream.hasMore

def isNext (r : TokenReader) (text : String) : Bool × TokenReader :=
  (r.peekText.1 = some text, r.peekText.2)

/-- Takes the next token if its text is `text`. -/
def popIfPresent (r : TokenReader) (text : String) : Bool × TokenReader :=
  match r.isNext text with
  | (true, r) => (true, r.pop.2)
  | (false, r) => (false, r)

/-- Takes the next token if it is accepted. Another token stays in place and is shown. -/
def popIf (r : TokenReader) (accept : Token → Bool) : Except (Option Token) Token × TokenReader :=
  match r.peek with
  | (none, r) => (.error none, r)
  | (some token, r) =>
    if accept token then
      match r.pop with
      | (some token, r) => (.ok token, r)
      | (none, r) => (.error none, r)
    else (.error r.peek.1, r.peek.2)

/-- Takes the next token if its text is `text`; what is wrong with another token, which stays in place. -/
def popExpected (r : TokenReader) (text : String) : Except CompileError Token × TokenReader :=
  match r.popIf (·.text = text) with
  | (.ok token, r) => (.ok token, r)
  | (.error found, r) => (CompileError.requireText r.stream.file text found, r)

/-- Takes the next token, which should be a word. -/
def popWord (r : TokenReader) : Except CompileError Token × TokenReader :=
  (CompileError.requireWord r.stream.file r.pop.1, r.pop.2)

end TokenReader

end GotoScript
