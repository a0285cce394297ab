/-!
# Tokens

A token is what the parser reads: its text, the place where it starts, and its width, the number of
entries of a token table that it stands for.
-/

namespace GotoScript

/-- A file with a line and a column in it, both counted from one. -/
structure Position where
  file : String
  line : UInt32
  column : UInt32
deriving DecidableEq, Repr

namespace Position

/-- Writes `file:line:column`. -/
def text (p : Position) : String :=
  p.file ++ ":" ++ toString p.line.toNat ++ ":" ++ toString p.column.toNat

end Position

structure Token where
  text : String
  position : Position
  width : UInt64
deriving DecidableEq, Repr

namespace Token

/-- The text of the token that ends a line. -/
def newline : String := "\n"

def isNewline (t : Token) : Bool :=
  t.text = newline

def firstChar? (t : Token) : Option Char :=
  t.text.toList.head?

/-- A word token starts with an ASCII letter or an underscore. -/
def isWord (t : Token) : Bool :=
  match t.firstChar? with
  | some c => c.isAlpha || c = '_'
  | none => false

/-- The text that messages show, where a line end reads `NEWLINE`. -/
def shown (t : Token) : String :=
  if t.isNewline then "NEWLINE" else t.text

/-- Writes `'text' @file:line:column`. -/
def display (t : Token) : String :=
  "'" ++ t.shown ++ "' @" ++ t.position.text

end Token

end GotoScript
