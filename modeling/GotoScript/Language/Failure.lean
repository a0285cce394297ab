import GotoScript.Error.Compile
import GotoScript.Run.Machine
import GotoScript.Token.Table

/-!
# Failures

Everything that can end the reading and running of a program, with one code and one text.
-/

namespace GotoScript

inductive Failure where
  | tokenize (error : TokenizeError)
  | compile (error : CompileError)
  | run (failed : Failed)
  | service (error : ServiceError)
  /-- A program is one file. -/
  | fileCount (count : Nat)
deriving DecidableEq, Repr

namespace Failure

def code : Failure → ErrorCode
  | tokenize e => e.code
  | compile _ => .parseError
  | run f => f.error.code
  | service e => e.code
  | fileCount _ => .unsupported

def text : Failure → String
  | tokenize e => e.message
  | compile e => e.text
  | run f => "runtime error at " ++ f.position.text ++ ": " ++ f.error.message
  | service e => e.text
  | fileCount n => "only one source file is supported, received " ++ toString n

/-- The failure as a service reports it. -/
def toServiceError : Failure → ServiceError
  | service e => e
  | f => ⟨f.code, f.text⟩

end Failure

end GotoScript
