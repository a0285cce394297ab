import GotoScript.Text.Lines
import GotoScript.Token.Basic

/-!
# Compile errors

A compile error says what is wrong with a program's tokens and where: at a token, or at the end of
the file. Attaching the source text gives it a span, the byte offset and length that a diagnostic
points at.
-/

namespace GotoScript

namespace CompileError

inductive Kind where
  | unexpectedToken
  | unexpectedEnd
  | invalidEscape
  | unsupportedAssignmentTarget
deriving DecidableEq, Repr

namespace Kind

def all : List Kind :=
  [.unexpectedToken, .unexpectedEnd, .invalidEscape, .unsupportedAssignmentTarget]

def text : Kind → String
  | unexpectedToken => "unexpected token"
  | unexpectedEnd => "unexpected end of file"
  | invalidEscape => "invalid escape sequence"
  | unsupportedAssignmentTarget => "unsupported assignment target"

end Kind

/-- A stretch of the source text, in bytes. -/
structure Span where
  offset : Nat
  length : Nat
deriving DecidableEq, Repr

end CompileError

structure CompileError where
  kind : CompileError.Kind
  message : String
  position : Option Position
  /-- Known also where there is no position. -/
  file : Option String
  width : Nat
  span : Option CompileError.Span := none
deriving DecidableEq, Repr

namespace CompileError

/-- The code under which diagnostics of this kind are listed. -/
def diagnosticCode : String := "silly::parse"

/-- An error at a position, if there is one. It is at least one character wide. -/
def at? (kind : Kind) (message : String) (position : Option Position) (width : Nat) : CompileError :=
  { kind, message, position, file := position.map (·.file), width := max width 1 }

/-- An error at a token, as wide as the token's text. -/
def atToken (kind : Kind) (message : String) (token : Token) : CompileError :=
  at? kind message (some token.position) token.text.length

/-- The tokens of `file` ran out. -/
def endOfFile (file : String) (message : String) : CompileError :=
  { at? .unexpectedEnd message none 0 with file := some file }

/-- Points the error into `source`: at its position, if that lies inside, or at the end of the text
where the error has no position. -/
def withSource (e : CompileError) (source : String) : CompileError :=
  { e with
    span :=
      match e.position with
      | some p => (Text.offsetOf? source.toList p.line p.column).map fun o => ⟨o, e.width⟩
      | none => some ⟨Text.byteLength source.toList, 0⟩ }

/-- Where the error is, as its text says it. -/
def place (e : CompileError) : String :=
  match e.position, e.file with
  | some p, _ => " at " ++ p.text
  | none, some file => " at " ++ file
  | none, none => ""

def text (e : CompileError) : String :=
  "parse error" ++ e.place ++ ": " ++ e.message

/-! ## The faults of a token stream -/

def unexpected (token : Token) : CompileError :=
  atToken .unexpectedToken ("unexpected token: '" ++ token.shown ++ "'") token

/-- The next token if its text is `text`, and otherwise what is wrong with it. -/
def requireText (file : String) (text : String) : Option Token → Except CompileError Token
  | some token =>
    if token.text = text then .ok token
    else .error
      (atToken .unexpectedToken ("expected '" ++ text ++ "' but found '" ++ token.shown ++ "'") token)
  | none => .error (endOfFile file ("expected '" ++ text ++ "' but found <END-OF-FILE>"))

/-- The next token if it is a word, and otherwise what is wrong with it. -/
def requireWord (file : String) : Option Token → Except CompileError Token
  | some token =>
    if token.isWord then .ok token
    else .error (atToken .unexpectedToken ("expected word but found '" ++ token.shown ++ "'") token)
  | none => .error (endOfFile file "expected word but found <END-OF-FILE>")

end CompileError

end GotoScript
