import GotoScript.Proofs.Scanning.LineEnds
import GotoScript.Proofs.Scanning.Tokens

/-!
# Line-end conventions

A line may end in a line feed, in a carriage return, or in both, and a text may mix them.

* `Text.Line` : a line and how it ends; `Text.Line.Merges` : two line ends that read as one;
* `Text.Line.cuts_written_iff` : only these part a carriage return from its line feed;
* `Text.unifyLineEnds_ofLines` : unifying leaves one line feed for each line;
* `TokenizeRequest.tokenize_eq` : the answer to a request that has a name and a text;
* `tokenize_of_any_line_ends` : both replacements leave one line feed for each line, so how the lines end makes no
  difference to it.
-/

namespace GotoScript

/-! ## Lines -/

namespace Text

inductive LineEnd where
  | lineFeed
  | returnAndFeed
  | carriageReturn

def LineEnd.chars : LineEnd → List Char
  | lineFeed => ['\n']
  | returnAndFeed => ['\r', '\n']
  | carriageReturn => ['\r']

/-- Characters that end no line, and how the line ends. -/
structure Line where
  chars : List Char
  ending : LineEnd
  no_return : '\r' ∉ chars
  no_feed : '\n' ∉ chars

namespace Line

def written (l : Line) : List Char :=
  l.chars ++ l.ending.chars

/-- The same line, ended by a line feed. -/
def withFeed (l : Line) : Line :=
  { l with ending := .lineFeed }

/-- The first line ends in a carriage return, and the second is nothing but a line feed: together they read as one
line end. -/
def Merges (l m : Line) : Prop :=
  l.ending = .carriageReturn ∧ m.chars = [] ∧ m.ending = .lineFeed

theorem written_ne_nil (l : Line) : l.written ≠ [] := by
  unfold written
  cases l.ending <;> simp [LineEnd.chars]

theorem getLast?_written_eq_return_iff (l : Line) :
    l.written.getLast? = some '\r' ↔ l.ending = .carriageReturn := by
  unfold written
  cases l.ending <;> simp [LineEnd.chars]

theorem head?_written_eq_feed_iff (l : Line) :
    l.written.head? = some '\n' ↔ l.chars = [] ∧ l.ending = .lineFeed := by
  have hfeed := l.no_feed
  unfold written
  cases hchars : l.chars with
  | nil => cases l.ending <;> simp [LineEnd.chars]
  | cons c cs =>
    rw [hchars] at hfeed
    have hne : c ≠ '\n' := by
      rintro rfl
      exact hfeed (.head _)
    simp [hne]

theorem cuts_written_iff (l m : Line) (more : List Char) :
    Cuts l.written (m.written ++ more) ↔ l.Merges m := by
  unfold Cuts Merges
  rw [getLast?_written_eq_return_iff, List.head?_append_of_ne_nil _ m.written_ne_nil, head?_written_eq_feed_iff]

theorem unifyLineEnds_written (l : Line) : unifyLineEnds l.written = l.withFeed.written := by
  have hcuts : ¬ Cuts l.chars l.ending.chars := by
    intro h
    exact l.no_return (List.mem_of_getLast? h.1)
  unfold written withFeed
  rw [unifyLineEnds_append hcuts, unifyLineEnds_of_notMem l.no_return]
  cases l.ending <;> rfl

end Line

/-- The text that lines make, one after another. -/
def ofLines (lines : List Line) : String :=
  String.ofList (lines.flatMap Line.written)

theorem ofLines_ne_empty {lines : List Line} (h : lines ≠ []) : ofLines lines ≠ "" := by
  obtain ⟨l, rest, rfl⟩ := List.exists_cons_of_ne_nil h
  simp [ofLines, l.written_ne_nil]

/-- Unifying leaves one line feed for each line, unless two line ends merge. -/
theorem unifyLineEnds_ofLines {lines : List Line} (h : lines.IsChain fun l m => ¬ l.Merges m) :
    unifyLineEnds (ofLines lines).toList = (lines.map Line.withFeed).flatMap Line.written := by
  unfold ofLines
  rw [String.toList_ofList]
  induction lines with
  | nil => rfl
  | cons l rest ih =>
    have hcuts : ¬ Cuts l.written (rest.flatMap Line.written) := by
      cases rest with
      | nil => exact fun hcuts => absurd hcuts.2 (by simp)
      | cons m rest =>
        rw [List.flatMap_cons, Line.cuts_written_iff]
        exact (List.isChain_cons_cons.1 h).1
    rw [List.flatMap_cons, unifyLineEnds_append hcuts, l.unifyLineEnds_written, ih h.tail, List.map_cons,
      List.flatMap_cons]

theorem isChain_map_withFeed (lines : List Line) :
    (lines.map Line.withFeed).IsChain fun l m => ¬ l.Merges m := by
  rw [List.isChain_map]
  refine (List.pairwise_of_forall fun l m h => ?_).isChain
  cases h.1

end Text

/-! ## Answers -/

/-- A request with a name and a text is answered by a table, or by the place of what is never closed. -/
theorem TokenizeRequest.tokenize_eq {file source : String} {text : List Char} (hfile : file ≠ "")
    (hsource : source ≠ "") (htext : Text.unifyLineEnds source.toList = text) (keep : Bool) :
    tokenize ⟨some file, some source, keep⟩ =
      ((Lexeme.scan keep text).map (.ofLexemes file text)).mapError fun offset =>
        .unclosedItem file (Text.place text offset).1 (Text.place text offset).2 := by
  unfold tokenize
  rw [require_of_ne hfile, require_of_ne hsource]
  simp only [bind, Except.bind, htext]
  cases Lexeme.scan keep text <;> rfl

/-- However each line ends, the two replacements leave one line feed for it and change nothing else. So the answer is
the same as when all lines end in a line feed: a table, or the line and the column of what is never closed. The one
exception is a carriage return before a line that is nothing but a line feed, as these two line ends read as one. -/
theorem tokenize_of_any_line_ends (file : String) (keep : Bool) (lines : List Text.Line) (hfile : file ≠ "")
    (hlines : lines ≠ []) (h : lines.IsChain fun l m => ¬ l.Merges m) :
    let answer (lines : List Text.Line) := TokenizeRequest.tokenize ⟨some file, some (Text.ofLines lines), keep⟩
    Text.replace ['\r'] ['\n'] (Text.replace ['\r', '\n'] ['\n'] (Text.ofLines lines).toList) =
        (Text.ofLines (lines.map Text.Line.withFeed)).toList ∧
      answer lines = answer (lines.map Text.Line.withFeed) ∧
      ((∃ table, answer lines = .ok table) ∨
        ∃ line column, answer lines = .error (.unclosedItem file line column)) := by
  intro answer
  let feeds := lines.map Text.Line.withFeed
  have hunified : Text.unifyLineEnds (Text.ofLines lines).toList = (Text.ofLines feeds).toList := by
    rw [Text.unifyLineEnds_ofLines h, Text.ofLines, String.toList_ofList]
  have hkept : Text.unifyLineEnds (Text.ofLines feeds).toList = (Text.ofLines feeds).toList := by
    rw [Text.unifyLineEnds_ofLines (Text.isChain_map_withFeed lines), List.map_map, Text.ofLines, String.toList_ofList]
    rfl
  have hanswer : answer lines = _ :=
    TokenizeRequest.tokenize_eq hfile (Text.ofLines_ne_empty hlines) hunified keep
  have hfeeds : answer feeds = _ :=
    TokenizeRequest.tokenize_eq hfile (Text.ofLines_ne_empty (mt List.map_eq_nil_iff.1 hlines)) hkept keep
  refine ⟨hunified, hanswer.trans hfeeds.symm, ?_⟩
  rw [hanswer]
  cases Lexeme.scan keep (Text.ofLines feeds).toList with
  | ok lexemes => exact .inl ⟨_, rfl⟩
  | error offset => exact .inr ⟨_, _, rfl⟩

/-- All three ways to end a line, in turn: a carriage return before an empty line that ends in both, and one behind a
backslash in a quoted text. -/
def Text.mixedLines : List Text.Line :=
  [⟨['a'], .carriageReturn, by decide, by decide⟩, ⟨[], .returnAndFeed, by decide, by decide⟩,
    ⟨['\'', '\\'], .carriageReturn, by decide, by decide⟩, ⟨['\''], .lineFeed, by decide, by decide⟩]

theorem tokenize_mixedLines :
    Text.ofLines Text.mixedLines = "a\r\r\n'\\\r'\n" ∧
      (Text.mixedLines.IsChain fun l m => ¬ l.Merges m) ∧
      Text.unifyLineEnds (Text.ofLines Text.mixedLines).toList = "a\n\n'\\\n'\n".toList ∧
      TokenizeRequest.tokenize ⟨some "main", some (Text.ofLines Text.mixedLines), true⟩ =
        .ok ⟨"main", #["a", "\n", "\n", "'\\\n'", "\n"], #[1, 1, 2, 3, 4], #[1, 2, 1, 1, 2]⟩ := by
  have hchain : Text.mixedLines.IsChain fun l m => ¬ l.Merges m := by
    simp [Text.mixedLines, Text.Line.Merges]
  have hfeeds : TokenizeRequest.tokenize
      ⟨some "main", some (Text.ofLines (Text.mixedLines.map Text.Line.withFeed)), true⟩ =
        .ok ⟨"main", #["a", "\n", "\n", "'\\\n'", "\n"], #[1, 1, 2, 3, 4], #[1, 2, 1, 1, 2]⟩ := by
    cbv
  have hsame := tokenize_of_any_line_ends "main" true Text.mixedLines (by decide) (by simp [Text.mixedLines]) hchain
  exact ⟨rfl, hchain, hsame.1.trans rfl, hsame.2.1.trans hfeeds⟩

end GotoScript
