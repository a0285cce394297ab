import GotoScript.Document.Basic
import GotoScript.Number.Decimal

/-!
# The text of a document

JSON in two forms: `compact`, on one line and without blanks, and `pretty`, with one field or item to
a line and two spaces for each level. Both keep the fields in the order in which they stand.
-/

namespace GotoScript.Document

/-- Floats are written without an exponent from `1e-5` up to `1e16`, always with a fraction, and
otherwise with an exponent that has a sign. Of two equally near decimals the even one is written. -/
def floatLayout : Number.Layout where
  positional power := -5 ≤ power && power < 16
  keepsFraction := true
  signedExponent := true
  tie := .toEven

/-- A float, or `null` when it is infinite or not a number. -/
def floatText (x : Float) : String :=
  if x.isFinite then floatLayout.text x else "null"

/-- The four digits that name a control character. -/
def controlEscape (c : Char) : List Char :=
  let digits := Nat.toDigits 16 c.toNat
  ['\\', 'u'] ++ List.replicate (4 - digits.length) '0' ++ digits

def escapeChar (c : Char) : List Char :=
  if c = '"' || c = '\\' then ['\\', c]
  else if c = '\x08' then ['\\', 'b']
  else if c = '\x0c' then ['\\', 'f']
  else if c = '\n' then ['\\', 'n']
  else if c = '\r' then ['\\', 'r']
  else if c = '\t' then ['\\', 't']
  else if c < ' ' then controlEscape c
  else [c]

def textLiteral (s : String) : String :=
  "\"" ++ String.ofList (s.toList.flatMap escapeChar) ++ "\""

/-- The text of a document that holds no others. -/
def scalarText : Document → String
  | null => "null"
  | bool b => if b then "true" else "false"
  | int n => toString n
  | float x => floatText x
  | text s => textLiteral s
  | list _ | object _ => ""

/-! ## On one line -/

mutual

def compact : Document → String
  | list items => "[" ++ compactItems items ++ "]"
  | object fields => "\x7b" ++ compactFields fields ++ "\x7d"
  | d => scalarText d

def compactItems : List Document → String
  | [] => ""
  | [d] => compact d
  | d :: rest => compact d ++ "," ++ compactItems rest

def compactFields : List (String × Document) → String
  | [] => ""
  | [(name, d)] => textLiteral name ++ ":" ++ compact d
  | (name, d) :: rest => textLiteral name ++ ":" ++ compact d ++ "," ++ compactFields rest

end

/-! ## One to a line -/

/-- Starts a line at a level. -/
def newLine (level : Nat) : String :=
  "\n" ++ String.ofList (List.replicate (2 * level) ' ')

mutual

/-- The text of a document that starts inside a line of the given level. -/
def prettyAt (level : Nat) : Document → String
  | list [] => "[]"
  | list items => "[" ++ prettyItems (level + 1) items ++ newLine level ++ "]"
  | object [] => "\x7b\x7d"
  | object fields => "\x7b" ++ prettyFields (level + 1) fields ++ newLine level ++ "\x7d"
  | d => scalarText d

def prettyItems (level : Nat) : List Document → String
  | [] => ""
  | [d] => newLine level ++ prettyAt level d
  | d :: rest => newLine level ++ prettyAt level d ++ "," ++ prettyItems level rest

def prettyFields (level : Nat) : List (String × Document) → String
  | [] => ""
  | [(name, d)] => newLine level ++ textLiteral name ++ ": " ++ prettyAt level d
  | (name, d) :: rest =>
    newLine level ++ textLiteral name ++ ": " ++ prettyAt level d ++ "," ++ prettyFields level rest

end

def pretty (d : Document) : String :=
  prettyAt 0 d

end GotoScript.Document
