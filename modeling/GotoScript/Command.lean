import GotoScript.Language.Services
import GotoScript.Program.Dump

/-!
# The command line

The command takes one source file and runs it, or shows its tokens or its tree instead. What it writes
and the code it exits with are worked out here; reading files is left to the caller.
-/

namespace GotoScript

namespace Command

inductive TreeFormat where
  | dump
  | document
deriving DecidableEq, Repr

/-- What is done with the source file. -/
inductive Task where
  | run
  | showTokens
  | showTree (format : TreeFormat)
deriving DecidableEq, Repr

end Command

structure Command where
  file : String
  task : Command.Task
deriving DecidableEq, Repr

namespace Command

/-! ## Arguments -/

/-- Why arguments make no command. -/
inductive Usage where
  | help
  | invalid
deriving DecidableEq, Repr

/-- The arguments read so far. -/
structure Given where
  file : Option String := none
  tokens : Bool := false
  tree : Bool := false
  format : Option TreeFormat := none

def TreeFormat.ofText? (text : String) : Option TreeFormat :=
  if text = "sexp" then some .dump
  else if text = "json" then some .document
  else none

namespace Given

def addFile (g : Given) (file : String) : Except Usage Given :=
  if g.file.isSome ∨ file.isEmpty then .error .invalid else .ok { g with file := some file }

def addFormat (g : Given) (text : String) : Except Usage Given :=
  match g.format, TreeFormat.ofText? text with
  | none, some format => .ok { g with format := some format }
  | _, _ => .error .invalid

/-- Reads files only. -/
def files (g : Given) : List String → Except Usage Given
  | [] => .ok g
  | file :: rest => do
    let g ← g.addFile file
    files g rest

/-- Reads arguments from the left. Every option is given at most once, and after `--` there are only
files. -/
def read (g : Given) : List String → Except Usage Given
  | [] => .ok g
  | arg :: rest =>
    if arg = "--" then g.files rest
    else if arg = "--help" ∨ arg.startsWith "-h" then .error .help
    else if arg = "--dump-tokens" then
      if g.tokens then .error .invalid else read { g with tokens := true } rest
    else if arg = "--dump-ast" then
      if g.tree then .error .invalid else read { g with tree := true } rest
    else if arg = "--ast-format" then
      match rest with
      | [] => .error .invalid
      | text :: rest => do
        let g ← g.addFormat text
        read g rest
    else if arg.startsWith "--ast-format=" then do
      let g ← g.addFormat (arg.drop "--ast-format=".length).toString
      read g rest
    else if arg.startsWith "-" ∧ arg ≠ "-" then .error .invalid
    else do
      let g ← g.addFile arg
      read g rest

end Given

/-- The command that arguments make. Showing tokens goes before showing the tree. -/
def ofArgs (args : List String) : Except Usage Command := do
  let g ← ({} : Given).read args
  match g.file with
  | none => throw .invalid
  | some file =>
    return ⟨file,
      if g.tokens then .showTokens
      else if g.tree then .showTree (g.format.getD .dump)
      else .run⟩

/-! ## Results -/

/-- Why a file could not be read. -/
inductive ReadFailure where
  | notFound
  | isDirectory
  | notText
  | other (cause : String)
deriving DecidableEq, Repr

def ReadFailure.cause : ReadFailure → String
  | notFound => "No such file or directory (os error 2)"
  | isDirectory => "Is a directory (os error 21)"
  | notText => "stream did not contain valid UTF-8"
  | other cause => cause

/-- What a command leaves: its exit code, what it wrote, and what went wrong. -/
structure Result where
  exit : UInt8
  output : String := ""
  report : Option String := none
deriving DecidableEq, Repr

def usageText : String :=
  "Usage: silly [OPTIONS] <FILE>\n\n" ++
    "  <FILE>                    Source file to run\n" ++
    "  --dump-tokens             Dump consolidated tokens and exit\n" ++
    "  --dump-ast                Dump AST and exit\n" ++
    "  --ast-format <sexp|json>  AST output format\n" ++
    "  -h, --help                Print help\n"

def readReport (file : String) (failure : ReadFailure) : String :=
  "Error: read source file '" ++ file ++ "'\n\nCaused by:\n    " ++ failure.cause

/-- How a failure is reported. What is wrong with a program's text is shown elsewhere. -/
def failureReport : Failure → String
  | f@(.compile _) => "Error: " ++ f.code.text ++ ": compilation failed"
  | f => "Error: " ++ f.code.text ++ ": " ++ f.text

/-- The text that shows the tokens or the tree. -/
def showing (file source : String) : Task → Except Failure String
  | .run => .ok ""
  | .showTokens => do
    let stream ← (tokenStream file source).mapError .tokenize
    return String.join (stream.tokens.map fun t => t.display ++ "\n")
  | .showTree .dump => do
    let p ← parseSource file source
    return p.dump
  | .showTree .document => do
    let p ← parseSource file source
    return p.treeText ++ "\n"

/-- What is run when a source file is. -/
def request (file source : String) : ProgramRequest :=
  ⟨[⟨file, source⟩]⟩

/-- Carries out a command on the text of its file. -/
def perform (c : Command) (world : World) (fuel : Nat) (source : String) : Option Result :=
  let result (outcome : Except Failure Unit) (output : String) : Result :=
    match outcome with
    | .ok _ => { exit := 0, output }
    | .error e => { exit := 1, output, report := some (failureReport e) }
  match c.task with
  | .run =>
    (runProgram world fuel (request c.file source) .unlimited).map fun (outcome, output) =>
      result outcome output
  | task =>
    match showing c.file source task with
    | .ok output => some (result (.ok ()) output)
    | .error e => some (result (.error e) "")

/-- Carries out the whole command, from its arguments on. -/
def execute (args : List String) (read : String → Except ReadFailure String) (world : World)
    (fuel : Nat) : Option Result :=
  match ofArgs args with
  | .error .help => some { exit := 0, output := usageText }
  | .error .invalid => some { exit := 2 }
  | .ok c =>
    match read c.file with
    | .error failure => some { exit := 1, report := some (readReport c.file failure) }
    | .ok source => c.perform world fuel source

end Command

end GotoScript
