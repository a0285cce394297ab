import GotoScript.Language.Failure
import GotoScript.Language.Request
import GotoScript.Program.Parser
import GotoScript.Token.Stream

/-!
# Compiling and running

A source text is parsed in one go with `parseSource`. `compile` takes the way over the services
instead: the tokenizer is looked up in the registry and asked by document, file by file, before the
one file that makes a program is parsed.
-/

namespace GotoScript

/-! ## From a source text -/

/-- The tokens of a source text, line ends among them. -/
def tokenStream (file source : String) : Except TokenizeError TokenStream :=
  (TokenizeRequest.tokenize ⟨some file, some source, true⟩).map fun table => ⟨table, 0⟩

namespace TokenStream

/-- Parses all that is left of a stream. -/
def program (s : TokenStream) : Except CompileError Program :=
  Parser.program s.file s.tokens

/-- Parses with the source text at hand, so that errors can point into it. -/
def programOf (s : TokenStream) (source : String) : Except Failure Program :=
  s.program.mapError fun e => .compile (e.withSource source)

end TokenStream

/-- Parses a source text. -/
def parseSource (file source : String) : Except Failure Program := do
  let tokens ← (tokenStream file source).mapError .tokenize
  tokens.programOf source

/-- The events of parsing a source text. -/
def parseEvents (file source : String) : List Event :=
  match tokenStream file source with
  | .error _ => []
  | .ok tokens =>
    .tokenized file tokens.table.size ::
      match tokens.program with
      | .error _ => []
      | .ok p => [.parsed file p.statements.length]

/-! ## Over the services -/

/-- The name of the tokenizer. -/
def tokenizerName : String := "simpleTokenizer"

/-- The tokenizer's answer to a document. -/
def tokenizerAnswer (d : Document) : Except ServiceError Document :=
  match TokenizeRequest.ofDocument? d with
  | none => .error .malformed
  | some request =>
    match request.tokenize with
    | .ok table => .ok table.toDocument.canonical
    | .error e => .error ⟨e.code, e.message⟩

namespace Service

/-- A service's answer to the request to tokenize. The other services of the language do not
understand such a request. -/
def answerTokenize (service : Service) (request : TokenizeRequest) : Except ServiceError Document :=
  match service with
  | .tokenizer => tokenizerAnswer request.toDocument.canonical
  | .answering answers => answers.document request.toDocument.canonical
  | .runner | .treeBuilder | .treeRunner => .error .malformed

/-- The token table that a service answers with. -/
def tokenize (service : Service) (file : SourceFile) : Except ServiceError TokenTable := do
  let reply ← service.answerTokenize ⟨some file.name, some file.content, true⟩
  match TokenTable.ofDocument? reply with
  | some table => return table
  | none => throw .malformed

end Service

/-- Tokenizes every file with the registered tokenizer, then parses the one file there may be. -/
def compile (registry : Registry) (request : ProgramRequest) : Except Failure Program := do
  let tokenizer ← (registry.resolve tokenizerName none).mapError .service
  let tables ← (request.files.mapM tokenizer.service.tokenize).mapError .service
  match request.files, tables with
  | [file], [table] => (TokenStream.mk table 0).programOf file.content
  | files, _ => throw (.fileCount files.length)

/-- How a program ended, with the text that was printed; nothing if it needed more than its fuel. -/
abbrev Finished := Option (Except Failure Unit × String)

/-- Runs a program on a writer. -/
def runTree (world : World) (fuel : Nat) (p : Program) (writer : Writer) : Finished :=
  (Interpreter.interpret world fuel p { console := { writer } }).map fun (report, i) =>
    (report.outcome.mapError .run, i.console.writer.text)

/-- Compiles and runs a program. It is compiled with the services that are there before anything has
happened. -/
def runProgram (world : World) (fuel : Nat) (request : ProgramRequest) (writer : Writer) : Finished :=
  match compile (world []).registry request with
  | .ok p => runTree world fuel p writer
  | .error e => some (.error e, writer.text)

end GotoScript
