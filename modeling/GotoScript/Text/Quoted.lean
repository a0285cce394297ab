import GotoScript.Text.Printable

/-!
# Quoted texts

How a text is shown between double quotes so that every character can be told apart: quotes and
backslashes are escaped, and so are line ends, tabs and the null character; a character that would
not show, or would change the one before it, is written as its code point.
-/

namespace GotoScript.Text

/-- Writes `\u` and the code point in braces. -/
def codePointEscape (c : Char) : List Char :=
  ['\\', 'u', '\x7b'] ++ Nat.toDigits 16 c.toNat ++ ['\x7d']

def quoteChar (c : Char) : List Char :=
  if c = '\x00' then ['\\', '0']
  else if c = '\t' then ['\\', 't']
  else if c = '\r' then ['\\', 'r']
  else if c = '\n' then ['\\', 'n']
  else if c = '"' || c = '\\' then ['\\', c]
  else if isExtender c || !isPrintable c then codePointEscape c
  else [c]

/-- The text between double quotes. -/
def quoted (text : String) : String :=
  "\"" ++ String.ofList (text.toList.flatMap quoteChar) ++ "\""

end GotoScript.Text
