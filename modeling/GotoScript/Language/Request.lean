import GotoScript.Program.Tree
import GotoScript.Token.Table

/-!
# Requests and replies as documents

What the services of the language are asked and what they answer, written as documents and read from
them.
-/

namespace GotoScript

/-! ## Tokenizing -/

namespace TokenizeRequest

def toDocument (r : TokenizeRequest) : Document :=
  let optional (t : Option String) : Document := (t.map Document.text).getD .null
  .object [("fileName", optional r.file), ("sourceText", optional r.source),
    ("options", .object [("newlineControl", .bool r.keepLineEnds)])]

/-- Reads the options of a request, all of which have defaults. -/
def options? : Option Document → Option Bool
  | none => some false
  | some d => do
    match ← d.record? [["newlineControl"]] with
    | [keep] => Document.flag? (keep.map (·.1))
    | _ => none

def ofDocument? (d : Document) : Option TokenizeRequest := do
  match ← d.record? [["fileName"], ["sourceText"], ["options"]] with
  | [file, source, options] =>
    return ⟨← Document.optionalText? (file.map (·.1)), ← Document.optionalText? (source.map (·.1)),
      ← options? (options.map (·.1))⟩
  | _ => none

end TokenizeRequest

namespace TokenTable

def toDocument (t : TokenTable) : Document :=
  .object [("fileName", .text t.file), ("values", .list (t.values.toList.map .text)),
    ("lines", .list (t.lines.toList.map fun n => .int n.toNat)),
    ("cols", .list (t.columns.toList.map fun n => .int n.toNat))]

def ofDocument? (d : Document) : Option TokenTable := do
  match ← d.record? [["fileName"], ["values"], ["lines"], ["cols"]] with
  | [some file, some values, some lines, some columns] =>
    return ⟨← file.1.text?, (← values.1.listOf? Document.text?).toArray,
      (← lines.1.listOf? Document.uint32?).toArray, (← columns.1.listOf? Document.uint32?).toArray⟩
  | _ => none

end TokenTable

/-! ## Programs -/

structure SourceFile where
  name : String
  content : String
deriving DecidableEq, Repr

namespace SourceFile

/-- Reads a file; its name may also be called `filename`. -/
def ofDocument? (d : Document) : Option SourceFile := do
  match ← d.record? [["name", "filename"], ["content"]] with
  | [some name, some content] => return ⟨← name.1.text?, ← content.1.text?⟩
  | _ => none

def toDocument (f : SourceFile) : Document :=
  .object [("name", .text f.name), ("content", .text f.content)]

end SourceFile

/-- What the language is asked to compile or run. -/
structure ProgramRequest where
  files : List SourceFile
deriving DecidableEq, Repr

namespace ProgramRequest

def ofDocument? (d : Document) : Option ProgramRequest := do
  match ← d.record? [["files"]] with
  | [some files] => return ⟨← files.1.listOf? SourceFile.ofDocument?⟩
  | _ => none

def toDocument (r : ProgramRequest) : Document :=
  .object [("files", .list (r.files.map SourceFile.toDocument))]

end ProgramRequest

namespace Program

/-- The reply that carries a parsed program. -/
def toReply (p : Program) : Document :=
  .object [("done", .bool true), ("parseTree", p.toDocument)]

/-- Reads the request to run a parsed program, which may also be called `parseTreeLegacy`. -/
def ofRequest? (d : Document) : Option Program := do
  match ← d.record? [["parseTree", "parseTreeLegacy"]] with
  | [some tree] => Program.ofDocument? tree.1
  | _ => none

end Program

/-- The reply to a request that was run to the end. What it printed went elsewhere. -/
def doneReply : Document :=
  .object [("done", .bool true), ("stdOut", .list []), ("stdErr", .list [])]

end GotoScript
