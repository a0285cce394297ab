import GotoScript.Language.Basic

/-!
# The services of the language

The tokenizer, the service that runs programs, the one that parses them and the one that runs what was
parsed. They answer documents, and print what programs print.
-/

namespace GotoScript

namespace Registry

def runnerName : String := "sillylang"

def treeBuilderName : String := "sillylangparse"

def treeRunnerName : String := "sillylangruntime"

/-- The version of all services of the language. -/
def builtinVersion : String := "0.1.0"

/-- A registry with the services of the language. -/
def builtin : Registry :=
  (((({} : Registry).register tokenizerName builtinVersion .tokenizer).register
    runnerName builtinVersion .runner).register
    treeBuilderName builtinVersion .treeBuilder).register
    treeRunnerName builtinVersion .treeRunner

end Registry

/-- A service's reply and what was printed for it; nothing if a program needed more than its fuel. -/
abbrev Reply := Option (Except ServiceError Document × String)

/-- The reply once a program has ended. -/
def Finished.reply (finished : Finished) : Reply :=
  finished.map fun (outcome, printed) =>
    ((outcome.mapError Failure.toServiceError).map fun _ => doneReply.canonical, printed)

/-- Sends a document to a service. -/
def sendDocument (world : World) (fuel : Nat) (service : Service) (d : Document) : Reply :=
  match service with
  | .tokenizer => some (tokenizerAnswer d, "")
  | .answering answers => some (answers.document d, "")
  | .runner =>
    match ProgramRequest.ofDocument? d with
    | none => some (.error .malformed, "")
    | some request => Finished.reply (runProgram world fuel request .unlimited)
  | .treeBuilder =>
    match ProgramRequest.ofDocument? d with
    | none => some (.error .malformed, "")
    | some request =>
      some (((compile (world []).registry request).mapError Failure.toServiceError).map
        fun p => p.toReply.canonical, "")
  | .treeRunner =>
    match Program.ofRequest? d with
    | none => some (.error .malformed, "")
    | some p => Finished.reply (runTree world fuel p .unlimited)

end GotoScript
