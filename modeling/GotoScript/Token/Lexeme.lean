import GotoScript.Text.Lines

/-!
# Lexemes

A source text is read from the left as a sequence of items: runs of blanks, comments, and lexemes.
A lexeme is a word, a quoted text kept as it is written, a line end, or a single mark. `scan` keeps
the lexemes with their byte offsets. Reading fails only at a quote or a block comment that is never
closed, and the failure is the offset of its first character.
-/

namespace GotoScript

namespace Lexeme

inductive Kind where
  | word
  | quoted
  | lineEnd
  | mark
deriving DecidableEq, Repr

end Lexeme

structure Lexeme where
  kind : Lexeme.Kind
  text : String
  offset : Nat
deriving DecidableEq, Repr

namespace Lexeme

/-! ## Character classes -/

/-- Space and tab, and the line feed unless line ends are kept as lexemes. -/
def isBlank (keepLineEnds : Bool) (c : Char) : Bool :=
  c = ' ' || c = '\t' || (c = '\n' && !keepLineEnds)

/-- Letters and digits of ASCII, and the underscore. -/
def isWordChar (c : Char) : Bool :=
  c.isAlphanum || c = '_'

def isQuote (c : Char) : Bool :=
  c = '"' || c = '\''

/-! ## Items -/

/-- One item at the front of a text, split from what follows it. Blanks and comments have no kind. -/
structure Item where
  kind : Option Kind
  chars : List Char
  rest : List Char

/-- What stands before the closing quote, the quote included, and what follows it. A backslash takes
the character after it along, whatever that is. -/
def closeQuote (quote : Char) : List Char → Option (List Char × List Char)
  | [] => none
  | '\\' :: [] => none
  | '\\' :: c :: rest => (closeQuote quote rest).map fun (body, after) => ('\\' :: c :: body, after)
  | c :: rest =>
    if c = quote then some ([c], rest)
    else (closeQuote quote rest).map fun (body, after) => (c :: body, after)

/-- What stands before the first `*/`, that mark included, and what follows it. -/
def closeComment : List Char → Option (List Char × List Char)
  | [] => none
  | '*' :: '/' :: rest => some (['*', '/'], rest)
  | c :: rest => (closeComment rest).map fun (body, after) => (c :: body, after)

/-- The longest run of characters of a class, after a first character of it. -/
def run (kind : Option Kind) (inClass : Char → Bool) (c : Char) (cs : List Char) : Item :=
  ⟨kind, c :: cs.takeWhile inClass, cs.dropWhile inClass⟩

/-- The first item of `c :: cs`, or nothing when it is never closed. -/
def firstItem? (keepLineEnds : Bool) (c : Char) (cs : List Char) : Option Item :=
  if isBlank keepLineEnds c then
    some (run none (isBlank keepLineEnds) c cs)
  else if c = '/' ∧ cs.head? = some '/' then
    some (run none (· ≠ '\n') c cs)
  else if c = '/' ∧ cs.head? = some '*' then
    (closeComment cs.tail).map fun (body, after) => ⟨none, '/' :: '*' :: body, after⟩
  else if isQuote c then
    (closeQuote c cs).map fun (body, after) => ⟨some .quoted, c :: body, after⟩
  else if isWordChar c then
    some (run (some .word) isWordChar c cs)
  else if c = '\n' then
    some ⟨some .lineEnd, [c], cs⟩
  else
    some ⟨some .mark, [c], cs⟩

theorem closeQuote_split {quote : Char} {cs body after : List Char}
    (h : closeQuote quote cs = some (body, after)) : body ++ after = cs := by
  fun_induction closeQuote quote cs generalizing body after with
  | case1 => simp at h
  | case2 => simp at h
  | case3 c rest ih =>
    obtain ⟨⟨b, a⟩, hb, he⟩ := Option.map_eq_some_iff.1 h
    cases he
    simp [ih hb]
  | case4 => cases h; rfl
  | case5 c rest _ _ _ ih =>
    obtain ⟨⟨b, a⟩, hb, he⟩ := Option.map_eq_some_iff.1 h
    cases he
    simp [ih hb]

theorem closeComment_split {cs body after : List Char}
    (h : closeComment cs = some (body, after)) : body ++ after = cs := by
  fun_induction closeComment cs generalizing body after with
  | case1 => simp at h
  | case2 => cases h; rfl
  | case3 c rest _ ih =>
    obtain ⟨⟨b, a⟩, hb, he⟩ := Option.map_eq_some_iff.1 h
    cases he
    simp [ih hb]

/-- An item and what follows it make up the text, and the item holds its first character. -/
theorem firstItem?_split {keepLineEnds : Bool} {c : Char} {cs : List Char} {item : Item}
    (h : firstItem? keepLineEnds c cs = some item) :
    ∃ tail, item.chars = c :: tail ∧ tail ++ item.rest = cs := by
  unfold firstItem? at h
  split at h
  · cases h
    exact ⟨_, rfl, List.takeWhile_append_dropWhile⟩
  split at h
  · cases h
    exact ⟨_, rfl, List.takeWhile_append_dropWhile⟩
  split at h
  · next hc =>
    obtain ⟨⟨b, a⟩, hb, rfl⟩ := Option.map_eq_some_iff.1 h
    refine ⟨'*' :: b, by simp [hc.1], ?_⟩
    have := closeComment_split hb
    cases cs with
    | nil => simp at hc
    | cons d ds => simp_all
  split at h
  · obtain ⟨⟨b, a⟩, hb, rfl⟩ := Option.map_eq_some_iff.1 h
    exact ⟨b, rfl, closeQuote_split hb⟩
  split at h
  · cases h
    exact ⟨_, rfl, List.takeWhile_append_dropWhile⟩
  split at h <;> cases h <;> exact ⟨[], rfl, rfl⟩

theorem firstItem?_rest_length {keepLineEnds : Bool} {c : Char} {cs : List Char} {item : Item}
    (h : firstItem? keepLineEnds c cs = some item) : item.rest.length ≤ cs.length := by
  obtain ⟨tail, -, rfl⟩ := firstItem?_split h
  simp

/-! ## Scanning -/

/-- The lexemes of `cs`, which starts at `offset`. -/
def scanFrom (keepLineEnds : Bool) (offset : Nat) (cs : List Char) : Except Nat (List Lexeme) :=
  match cs with
  | [] => .ok []
  | c :: cs =>
    match _h : firstItem? keepLineEnds c cs with
    | none => .error offset
    | some item => do
      let later ← scanFrom keepLineEnds (offset + Text.byteLength item.chars) item.rest
      match item.kind with
      | none => return later
      | some kind => return ⟨kind, String.ofList item.chars, offset⟩ :: later
termination_by cs.length
decreasing_by
  have := firstItem?_rest_length _h
  simp only [List.length_cons]
  omega

/-- The lexemes of a text, or the byte offset of the quote or comment that is never closed. -/
def scan (keepLineEnds : Bool) (text : List Char) : Except Nat (List Lexeme) :=
  scanFrom keepLineEnds 0 text

end Lexeme

end GotoScript
