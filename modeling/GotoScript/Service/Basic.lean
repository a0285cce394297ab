import GotoScript.Document.Basic
import GotoScript.Error.Code

/-!
# Services

A service answers three kinds of requests: a text with a text, a document with a document, and a
subscription with any number of texts. It need not answer them all. Some services are part of the
language; the others are given by what they answer.
-/

namespace GotoScript

structure ServiceError where
  code : ErrorCode
  message : String
deriving DecidableEq, Repr

namespace ServiceError

def text (e : ServiceError) : String :=
  e.code.text ++ ": " ++ e.message

def notFound (name : String) : Option String → ServiceError
  | none => ⟨.serviceNotFound, "service not found: " ++ name⟩
  | some version => ⟨.serviceNotFound, "service not found: " ++ name ++ " (" ++ version ++ ")"⟩

def unsupportedText : ServiceError :=
  ⟨.unsupported, "string requests are not supported"⟩

def unsupportedDocument : ServiceError :=
  ⟨.unsupported, "document requests are not supported"⟩

def unsupportedSubscription : ServiceError :=
  ⟨.unsupported, "subscription requests are not supported"⟩

/-- A document that does not have the form it should have. -/
def malformed : ServiceError :=
  ⟨.badRequest, "malformed document"⟩

end ServiceError

/-- The answers of a service. -/
structure Answers where
  /-- The answer to a text. A service may keep state and ask others, so the same text may be answered in
  another way at another moment. -/
  text : Nat → String → Except ServiceError String := fun _ _ => .error .unsupportedText
  document : Document → Except ServiceError Document := fun _ => .error .unsupportedDocument
  subscription : String → Except ServiceError (List String) :=
    fun _ => .error .unsupportedSubscription

inductive Service where
  /-- Splits source texts into token tables. -/
  | tokenizer
  /-- Parses and runs programs. -/
  | runner
  /-- Parses programs. -/
  | treeBuilder
  /-- Runs programs that are parsed already. -/
  | treeRunner
  | answering (answers : Answers)

end GotoScript
