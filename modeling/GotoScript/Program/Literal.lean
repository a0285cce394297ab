import GotoScript.Error.Compile
import GotoScript.Number.Digits
import GotoScript.Program.Basic

/-!
# Literals

The values that number and text tokens stand for. A text literal names a quote, a backslash, a line
feed, a carriage return or a tab by a backslash and one character; no other escape is known.
-/

namespace GotoScript.Literal

/-! ## Texts -/

inductive EscapeFault where
  | unknown (c : Char)
  /-- The text ends in the middle of an escape. -/
  | unfinished
deriving DecidableEq, Repr

def EscapeFault.message : EscapeFault → String
  | unknown c => "invalid escape sequence: \\" ++ String.singleton c
  | unfinished => "invalid escape sequence: terminating backslash"

/-- The character that a backslash and `c` stand for. -/
def escaped? (c : Char) : Option Char :=
  if c = 'r' then some '\r'
  else if c = 'n' then some '\n'
  else if c = 't' then some '\t'
  else if c = '"' || c = '\'' || c = '\\' then some c
  else none

/-- Reads what stands between the quotes. -/
def unescape : List Char → Except EscapeFault (List Char)
  | [] => .ok []
  | '\\' :: [] => .error .unfinished
  | '\\' :: c :: rest =>
    match escaped? c with
    | none => .error (.unknown c)
    | some d => (unescape rest).map (d :: ·)
  | c :: rest => (unescape rest).map (c :: ·)

/-- What stands between the first byte and the last. There is nothing there when the last byte does
not begin a character. -/
def unquote (text : List Char) : List Char :=
  let inner := text.tail
  match inner.getLast? with
  | some c => if c.utf8Size = 1 then inner.dropLast else []
  | none => []

def text (token : Token) : Except CompileError String :=
  match unescape (unquote token.text.toList) with
  | .ok cs => .ok (String.ofList cs)
  | .error fault => .error (.atToken .invalidEscape fault.message token)

/-! ## Numbers -/

/-- One or more ASCII digits and nothing else. -/
def isDigits (text : String) : Bool :=
  !text.isEmpty && text.toList.all Char.isDigit

/-- An integer literal: at most the greatest 64-bit integer. -/
def int (token : Token) : Except CompileError Expr :=
  let n := Number.natOfDigits token.text.toList
  if n < Nat.pow 2 63 then .ok (.int (Int64.ofNat n))
  else .error (.atToken .unexpectedToken ("integer literal out of range: " ++ token.text) token)

/-- The float nearest to the digits before and after the point. -/
def float (whole decimals : String) : Expr :=
  .float (Float.ofScientific (Number.natOfDigits (whole.toList ++ decimals.toList)) true decimals.length)

end GotoScript.Literal
