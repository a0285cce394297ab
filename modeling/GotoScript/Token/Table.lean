import GotoScript.Error.Code
import GotoScript.Token.Basic
import GotoScript.Token.Lexeme

/-!
# Token tables

A tokenizer answers with flat arrays: the texts of the lexemes and, entry by entry, the line and the
column where each starts. `tokenize` builds such a table from a source text, after its line ends
have been unified. A table that comes from elsewhere may be ragged.
-/

namespace GotoScript

structure TokenTable where
  file : String
  values : Array String
  lines : Array UInt32
  columns : Array UInt32
deriving DecidableEq, Repr

/-- What a tokenizer is asked: a file's name and text, both of which may be missing, and whether line
ends are tokens. -/
structure TokenizeRequest where
  file : Option String := none
  source : Option String := none
  keepLineEnds : Bool := false
deriving DecidableEq, Repr

/-- An argument that a tokenizer cannot do without. -/
inductive TokenizeRequest.Argument where
  | fileName
  | sourceText
deriving DecidableEq, Repr

inductive TokenizeError where
  | unclosedItem (file : String) (line column : UInt32)
  | missing (argument : TokenizeRequest.Argument)
deriving DecidableEq, Repr

namespace TokenizeError

def code : TokenizeError → ErrorCode
  | unclosedItem .. => .unclosedItem
  | missing _ => .badRequest

def message : TokenizeError → String
  | unclosedItem file line column =>
    "there is an unclosed comment or string in " ++ file ++ " (line " ++ toString line.toNat ++
      ", column " ++ toString column.toNat ++ ")"
  | missing .fileName => "missing file name argument"
  | missing .sourceText => "missing source text argument"

end TokenizeError

namespace TokenTable

def size (t : TokenTable) : Nat :=
  t.values.size

def isEmpty (t : TokenTable) : Bool :=
  t.values.isEmpty

/-- The line and column of each offset in turn, for one cursor that visits them all. -/
def places (cursor : Text.LineCursor) : List Nat → List (UInt32 × UInt32)
  | [] => []
  | offset :: later =>
    let cursor := cursor.locate offset
    (cursor.line, cursor.column) :: places cursor later

/-- The table of the lexemes of `text`. -/
def ofLexemes (file : String) (text : List Char) (lexemes : List Lexeme) : TokenTable :=
  let found := places ⟨text, 0, 1, 1⟩ (lexemes.map (·.offset))
  ⟨file, (lexemes.map (·.text)).toArray, (found.map (·.1)).toArray, (found.map (·.2)).toArray⟩

end TokenTable

namespace TokenizeRequest

/-- An argument that is present and not empty. -/
def require (argument : Argument) : Option String → Except TokenizeError String
  | some text => if text.isEmpty then .error (.missing argument) else .ok text
  | none => .error (.missing argument)

/-- Answers a request. A missing file name is reported before a missing source text, and both before
anything is read. -/
def tokenize (request : TokenizeRequest) : Except TokenizeError TokenTable := do
  let file ← require .fileName request.file
  let source ← require .sourceText request.source
  let text := Text.unifyLineEnds source.toList
  match Lexeme.scan request.keepLineEnds text with
  | .ok lexemes => return .ofLexemes file text lexemes
  | .error offset =>
    let place := Text.LineCursor.locate ⟨text, 0, 1, 1⟩ offset
    throw (.unclosedItem file place.line place.column)

end TokenizeRequest

end GotoScript
