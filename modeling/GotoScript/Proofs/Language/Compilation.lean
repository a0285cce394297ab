import GotoScript.Language.Services
import GotoScript.Proofs.Documents.RoundTrip

/-!
# Compiling with the built-in tokenizer

`compile` asks the registered tokenizer by document and reads the answer from a document. With the
built-in tokenizer nothing is lost on either way:

* `TokenizeRequest.ofDocument?_canonical`, `TokenTable.ofDocument?_canonical` : the question and the
  answer are read back, as is the request to compile with `ProgramRequest.ofDocument?_canonical`;
* `compile_single` : one file is tokenized and parsed as if there were no documents in between;
* `mapM_tokenize_tokenizer`, `compile_eq_parseSource` : of any number of files the first that cannot be
  tokenized is reported, then their number, and one file gives what parsing it gives.
-/

namespace GotoScript

/-- The latest version of a name is bound to a service. -/
def Registry.BoundTo (r : Registry) (name : String) (service : Service) : Prop :=
  ∃ version, r.resolve name none = .ok ⟨name, version, service⟩

/-! ## The question -/

namespace TokenizeRequest

theorem optionalText?_canonical (t : Option String) :
    Document.optionalText? (some ((t.map Document.text).getD .null).canonical) = some t := by
  cases t <;> rfl

theorem canonical_toDocument (r : TokenizeRequest) :
    r.toDocument.canonical =
      .object [("fileName", ((r.file.map Document.text).getD .null).canonical),
        ("options", .object [("newlineControl", .bool r.keepLineEnds)]),
        ("sourceText", ((r.source.map Document.text).getD .null).canonical)] :=
  rfl

theorem ofDocument?_sent (file source options : Document) :
    ofDocument? (.object [("fileName", file), ("options", options), ("sourceText", source)]) =
      (Document.optionalText? (some file)).bind fun f =>
        (Document.optionalText? (some source)).bind fun s =>
          (options? (some options)).bind fun keep => some ⟨f, s, keep⟩ := by
  simp [ofDocument?, Document.record?, Document.named, Document.one?]

theorem ofDocument?_canonical (r : TokenizeRequest) :
    ofDocument? r.toDocument.canonical = some r := by
  have hoptions : options? (some (.object [("newlineControl", .bool r.keepLineEnds)])) =
      some r.keepLineEnds := by
    simp [options?, Document.record?, Document.named, Document.one?, Document.flag?, Document.bool?]
  rw [canonical_toDocument, ofDocument?_sent, optionalText?_canonical, optionalText?_canonical,
    hoptions]
  rfl

end TokenizeRequest

/-! ## The answer -/

namespace TokenTable

theorem canonical_toDocument (t : TokenTable) :
    t.toDocument.canonical =
      .object [("cols", (Document.list (t.columns.toList.map fun n => .int n.toNat)).canonical),
        ("fileName", .text t.file),
        ("lines", (Document.list (t.lines.toList.map fun n => .int n.toNat)).canonical),
        ("values", (Document.list (t.values.toList.map .text)).canonical)] :=
  rfl

theorem ofDocument?_sent (file values lines columns : Document) :
    ofDocument? (.object [("cols", columns), ("fileName", file), ("lines", lines),
        ("values", values)]) =
      file.text?.bind fun f => (values.listOf? Document.text?).bind fun vs =>
        (lines.listOf? Document.uint32?).bind fun ls =>
          (columns.listOf? Document.uint32?).bind fun cs =>
            some ⟨f, vs.toArray, ls.toArray, cs.toArray⟩ := by
  simp [ofDocument?, Document.record?, Document.named, Document.one?]

theorem ofDocument?_canonical (t : TokenTable) : ofDocument? t.toDocument.canonical = some t := by
  have htext (s : String) : (Document.text s).canonical.text? = some s := rfl
  have hplace (n : UInt32) : (Document.int n.toNat).canonical.uint32? = some n :=
    Document.uint32?_toNat n
  rw [canonical_toDocument, ofDocument?_sent, Document.listOf?_canonical htext,
    Document.listOf?_canonical hplace, Document.listOf?_canonical hplace]
  rfl

end TokenTable

/-! ## Programs to compile -/

namespace SourceFile

theorem ofDocument?_sent (name content : Document) :
    ofDocument? (.object [("content", content), ("name", name)]) =
      name.text?.bind fun n => content.text?.bind fun c => some ⟨n, c⟩ := by
  simp [ofDocument?, Document.record?, Document.named, Document.one?]

theorem ofDocument?_canonical (f : SourceFile) : ofDocument? f.toDocument.canonical = some f := by
  rw [toDocument, Document.canonical_pair_swap (by decide), ofDocument?_sent]
  rfl

end SourceFile

theorem ProgramRequest.ofDocument?_sent (files : Document) :
    ofDocument? (.object [("files", files)]) =
      (files.listOf? SourceFile.ofDocument?).bind fun fs => some ⟨fs⟩ := by
  simp [ofDocument?, Document.record?, Document.named, Document.one?]

/-- A request to compile is read back from the document that is sent. -/
theorem ProgramRequest.ofDocument?_canonical (r : ProgramRequest) :
    ofDocument? r.toDocument.canonical = some r := by
  have hsent : r.toDocument.canonical =
      .object [("files", (Document.list (r.files.map SourceFile.toDocument)).canonical)] := rfl
  rw [hsent, ofDocument?_sent, Document.listOf?_canonical SourceFile.ofDocument?_canonical]
  rfl

/-! ## Compiling -/

/-- The built-in tokenizer answers as if it were called. -/
theorem Service.tokenize_tokenizer (file : SourceFile) :
    Service.tokenizer.tokenize file =
      (TokenizeRequest.tokenize ⟨some file.name, some file.content, true⟩).mapError
        fun e => ⟨e.code, e.message⟩ := by
  unfold Service.tokenize Service.answerTokenize tokenizerAnswer
  simp only [TokenizeRequest.ofDocument?_canonical]
  cases TokenizeRequest.tokenize ⟨some file.name, some file.content, true⟩ with
  | error e => rfl
  | ok table =>
    simp only [bind, Except.bind, TokenTable.ofDocument?_canonical]
    rfl

/-- All files are tokenized before they are counted. -/
theorem compile_of_boundTo {registry : Registry} (h : registry.BoundTo tokenizerName .tokenizer)
    (request : ProgramRequest) :
    compile registry request =
      ((request.files.mapM Service.tokenizer.tokenize).mapError Failure.service).bind fun tables =>
        match request.files, tables with
        | [file], [table] => (TokenStream.mk table 0).programOf file.content
        | files, _ => .error (.fileCount files.length) := by
  obtain ⟨version, hresolve⟩ := h
  unfold compile
  rw [hresolve]
  rfl

/-- One file is tokenized, then parsed. -/
theorem compile_single {registry : Registry} (h : registry.BoundTo tokenizerName .tokenizer)
    (file : SourceFile) :
    compile registry ⟨[file]⟩ =
      match TokenizeRequest.tokenize ⟨some file.name, some file.content, true⟩ with
      | .error e => .error (.service ⟨e.code, e.message⟩)
      | .ok table => (TokenStream.mk table 0).programOf file.content := by
  rw [compile_of_boundTo h, List.mapM_cons, List.mapM_nil, Service.tokenize_tokenizer]
  cases TokenizeRequest.tokenize ⟨some file.name, some file.content, true⟩ with
  | error e => rfl
  | ok table => rfl

/-! ## Compiling and parsing -/

/-- Why a file cannot be tokenized, as parsing it tells. -/
def SourceFile.tokenizeError? (file : SourceFile) : Option TokenizeError :=
  match parseSource file.name file.content with
  | .error (.tokenize e) => some e
  | _ => none

theorem parseSource_of_tokenized {file : SourceFile} {table : TokenTable}
    (h : TokenizeRequest.tokenize ⟨some file.name, some file.content, true⟩ = .ok table) :
    parseSource file.name file.content = (TokenStream.mk table 0).programOf file.content := by
  unfold parseSource tokenStream
  rw [h]
  rfl

namespace SourceFile

theorem tokenizeError?_of_error {file : SourceFile} {e : TokenizeError}
    (h : TokenizeRequest.tokenize ⟨some file.name, some file.content, true⟩ = .error e) :
    file.tokenizeError? = some e := by
  unfold tokenizeError? parseSource tokenStream
  rw [h]
  rfl

/-- Where tokenizing succeeds, parsing fails for other reasons if at all. -/
theorem tokenizeError?_of_tokenized {file : SourceFile} {table : TokenTable}
    (h : TokenizeRequest.tokenize ⟨some file.name, some file.content, true⟩ = .ok table) :
    file.tokenizeError? = none := by
  unfold tokenizeError?
  rw [parseSource_of_tokenized h, TokenStream.programOf]
  cases (TokenStream.mk table 0).program with
  | error e => rfl
  | ok p => rfl

end SourceFile

/-- Asking the built-in tokenizer about file after file stops at the first that has an error. -/
theorem mapM_tokenize_tokenizer (files : List SourceFile) :
    match files.findSome? SourceFile.tokenizeError? with
    | some e => files.mapM Service.tokenizer.tokenize = .error ⟨e.code, e.message⟩
    | none => ∃ tables, files.mapM Service.tokenizer.tokenize = .ok tables := by
  induction files with
  | nil => exact ⟨[], rfl⟩
  | cons file rest ih =>
    rw [List.findSome?_cons, List.mapM_cons, Service.tokenize_tokenizer]
    cases htokenize : TokenizeRequest.tokenize ⟨some file.name, some file.content, true⟩ with
    | error e =>
      rw [SourceFile.tokenizeError?_of_error htokenize]
      rfl
    | ok table =>
      rw [SourceFile.tokenizeError?_of_tokenized htokenize]
      cases hrest : rest.findSome? SourceFile.tokenizeError? with
      | some e =>
        rw [hrest] at ih
        simp only at ih ⊢
        rw [ih]
        rfl
      | none =>
        rw [hrest] at ih
        obtain ⟨tables, htables⟩ := ih
        exact ⟨table :: tables, by rw [htables]; rfl⟩

/-- With the built-in tokenizer, compiling agrees with parsing. The first file that cannot be tokenized
is reported by the code and the text of its error; then comes the number of files; and one file gives
what parsing it gives, program or error. -/
theorem compile_eq_parseSource (registry : Registry)
    (h : registry.BoundTo tokenizerName .tokenizer) (request : ProgramRequest) :
    compile registry request =
      match request.files.findSome? SourceFile.tokenizeError?, request.files with
      | some e, _ => .error (.service ⟨(Failure.tokenize e).code, (Failure.tokenize e).text⟩)
      | none, [file] => parseSource file.name file.content
      | none, files => .error (.fileCount files.length) := by
  obtain ⟨files⟩ := request
  have hmap := mapM_tokenize_tokenizer files
  simp only
  cases hfirst : files.findSome? SourceFile.tokenizeError? with
  | some e =>
    rw [hfirst] at hmap
    simp only at hmap
    rw [compile_of_boundTo h, hmap]
    rfl
  | none =>
    rw [hfirst] at hmap
    obtain ⟨tables, htables⟩ := hmap
    match files with
    | [] =>
      rw [compile_of_boundTo h, htables]
      rfl
    | [file] =>
      rw [compile_single h]
      cases htokenize : TokenizeRequest.tokenize ⟨some file.name, some file.content, true⟩ with
      | error e =>
        rw [List.findSome?_cons, SourceFile.tokenizeError?_of_error htokenize] at hfirst
        cases hfirst
      | ok table => exact (parseSource_of_tokenized htokenize).symm
    | file :: next :: more =>
      rw [compile_of_boundTo h, htables]
      rfl

/-- Of three files the first can be tokenized, the second has no name and the third an unclosed
quote. -/
theorem compile_nameless_file :
    Registry.builtin.BoundTo tokenizerName .tokenizer ∧
      compile Registry.builtin ⟨[⟨"a", "x ="⟩, ⟨"", "x"⟩, ⟨"b", "'"⟩]⟩ =
        .error (.service ⟨.badRequest, "missing file name argument"⟩) := by
  have hbound : Registry.builtin.BoundTo tokenizerName .tokenizer := ⟨_, rfl⟩
  have hfirst : [(⟨"a", "x ="⟩ : SourceFile), ⟨"", "x"⟩, ⟨"b", "'"⟩].findSome?
      SourceFile.tokenizeError? = some (.missing .fileName) := by decide +kernel
  refine ⟨hbound, ?_⟩
  rw [compile_eq_parseSource Registry.builtin hbound, hfirst]
  rfl

end GotoScript
