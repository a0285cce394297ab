import GotoScript.Proofs.Language.FloatLiterals

/-!
# Two routes to running a program

A program can be sent to the service that runs programs, or first to the one that parses them and then,
as a tree, to the one that runs trees. This module compares the two.

* `askLatest` : a request to the latest version of a service; `parseThenRun` : the route over the tree;
* `FloatsKept registry d` : the program that `d` asks for has no float that a document cannot carry;
* `parseThenRun_eq_run_iff` : the routes give the same answer exactly then, and otherwise the tree is
  refused.
-/

namespace GotoScript

/-! ## Asking services by name -/

/-- Sends a document to the latest version of a service. -/
def askLatest (world : World) (fuel : Nat) (name : String) (d : Document) : Reply :=
  match (world []).registry.resolve name none with
  | .error e => some (.error e, "")
  | .ok client => sendDocument world fuel client.service d

theorem askLatest_of_boundTo {world : World} {name : String} {service : Service}
    (h : (world []).registry.BoundTo name service) (fuel : Nat) (d : Document) :
    askLatest world fuel name d = sendDocument world fuel service d := by
  obtain ⟨version, hresolve⟩ := h
  unfold askLatest
  rw [hresolve]

/-- The request to run the tree that a reply carries. -/
def treeRequest : Document → Document
  | .object fields => .object (fields.filter (·.1 = "parseTree"))
  | d => d

/-- Asks for the tree of a program, then to run that tree. What is printed comes in this order. -/
def parseThenRun (world : World) (fuel : Nat) (d : Document) : Reply :=
  match askLatest world fuel Registry.treeBuilderName d with
  | some (.ok reply, printed) =>
    (askLatest world fuel Registry.treeRunnerName (treeRequest reply)).map
      fun (answer, more) => (answer, printed ++ more)
  | other => other

/-! ## The tree on its way -/

theorem Program.ofRequest?_sent (tree : Document) :
    Program.ofRequest? (.object [("parseTree", tree)]) = Program.ofDocument? tree := by
  simp [ofRequest?, Document.record?, Document.named, Document.one?]

/-- A tree arrives unless a float was lost. -/
theorem Program.ofRequest?_treeRequest (p : Program) :
    Program.ofRequest? (treeRequest p.toReply.canonical) =
      if p.floatsFinite then some p else none := by
  have hreply : p.toReply.canonical =
      .object [("done", .bool true), ("parseTree", p.toDocument.canonical)] :=
    Document.canonical_pair (by decide) _ _
  have hrequest : treeRequest p.toReply.canonical =
      .object [("parseTree", p.toDocument.canonical)] := by
    rw [hreply]
    rfl
  rw [hrequest, ofRequest?_sent, ofDocument?_canonical]

/-! ## What running a tree can answer -/

theorem Failure.run_ne_malformed (f : Failed) : (Failure.run f).toServiceError ≠ .malformed := by
  intro h
  have htext : "runtime error at " ++ f.position.text ++ ": " ++ f.error.message =
      "malformed document" := congrArg ServiceError.message h
  have hchars := congrArg (fun s => s.toList.head?) htext
  simp at hchars

/-- Running a tree never refuses it. -/
theorem reply_runTree_ne_malformed (world : World) (fuel : Nat) (p : Program) (writer : Writer)
    (printed : String) :
    Finished.reply (runTree world fuel p writer) ≠ some (.error .malformed, printed) := by
  intro h
  unfold runTree Finished.reply at h
  rw [Option.map_map] at h
  obtain ⟨⟨report, i⟩, -, heq⟩ := Option.map_eq_some_iff.1 h
  have hanswer := congrArg Prod.fst heq
  obtain ⟨outcome, events⟩ := report
  cases outcome with
  | ok => cases hanswer
  | error f => exact Failure.run_ne_malformed f (Except.error.inj hanswer)

/-! ## The two routes -/

/-- The program that a request asks for, if it compiles, has only floats that a document carries. -/
def FloatsKept (registry : Registry) (d : Document) : Prop :=
  ∀ request p, ProgramRequest.ofDocument? d = some request → compile registry request = .ok p →
    p.floatsFinite

/-- A printed float is kept exactly when it is finite. -/
theorem floatsKept_printFloat {registry : Registry}
    (h : registry.BoundTo tokenizerName .tokenizer) {name whole decimals : String}
    (hname : name ≠ "") (hw : Literal.isDigits whole) (hd : Literal.isDigits decimals) :
    FloatsKept registry
        (ProgramRequest.mk [⟨name, printFloat whole decimals⟩]).toDocument.canonical ↔
      (Literal.float whole decimals).floatsFinite := by
  obtain ⟨position, hcompile⟩ := compile_printFloat h hname hw hd
  constructor
  · intro hkept
    have hfinite := hkept _ _ (ProgramRequest.ofDocument?_canonical _) hcompile
    simpa [Program.floatsFinite, Action.floatsFinite] using hfinite
  · intro hfinite request p hrequest hp
    rw [ProgramRequest.ofDocument?_canonical] at hrequest
    cases hrequest
    cases hcompile.symm.trans hp
    simpa [Program.floatsFinite, Action.floatsFinite] using hfinite

section Routes

variable {world : World} (fuel : Nat) {d : Document}
  (hbuilder : (world []).registry.BoundTo Registry.treeBuilderName .treeBuilder)
  (htree : (world []).registry.BoundTo Registry.treeRunnerName .treeRunner)
  (hrunner : (world []).registry.BoundTo Registry.runnerName .runner)

include hbuilder hrunner in
/-- Where no program comes about, both routes report why. -/
theorem parseThenRun_of_not_compiled
    (h : ∀ request p, ProgramRequest.ofDocument? d = some request →
      compile (world []).registry request ≠ .ok p) :
    parseThenRun world fuel d = askLatest world fuel Registry.runnerName d := by
  unfold parseThenRun
  rw [askLatest_of_boundTo hbuilder, askLatest_of_boundTo hrunner]
  unfold sendDocument runProgram
  cases hrequest : ProgramRequest.ofDocument? d with
  | none => rfl
  | some request =>
    cases hcompile : compile (world []).registry request with
    | ok p => exact absurd hcompile (h request p hrequest)
    | error e =>
      simp only [hcompile]
      rfl

include hrunner in
theorem run_of_compiled {request : ProgramRequest} {p : Program}
    (hrequest : ProgramRequest.ofDocument? d = some request)
    (hcompile : compile (world []).registry request = .ok p) :
    askLatest world fuel Registry.runnerName d =
      Finished.reply (runTree world fuel p .unlimited) := by
  rw [askLatest_of_boundTo hrunner]
  unfold sendDocument runProgram
  simp only [hrequest, hcompile]

include hbuilder htree in
/-- Where a program comes about, its tree is run if it arrives and refused if not. -/
theorem parseThenRun_of_compiled {request : ProgramRequest} {p : Program}
    (hrequest : ProgramRequest.ofDocument? d = some request)
    (hcompile : compile (world []).registry request = .ok p) :
    parseThenRun world fuel d =
      if p.floatsFinite then Finished.reply (runTree world fuel p .unlimited)
      else some (.error .malformed, "") := by
  have hreply : askLatest world fuel Registry.treeBuilderName d =
      some (.ok p.toReply.canonical, "") := by
    rw [askLatest_of_boundTo hbuilder]
    unfold sendDocument
    simp only [hrequest, hcompile]
    rfl
  unfold parseThenRun
  simp only [hreply, askLatest_of_boundTo htree, sendDocument, Program.ofRequest?_treeRequest]
  cases p.floatsFinite with
  | false => rfl
  | true => simp

end Routes

/-- Over a registry whose latest services are those of the language, the route over the tree gives the
same answer as running the program at once, with the same printed text and as much fuel, exactly when
every float of the program can be sent. Otherwise the tree is refused, whatever the program does. -/
theorem parseThenRun_eq_run_iff (world : World) (fuel : Nat) (d : Document)
    (hbuilder : (world []).registry.BoundTo Registry.treeBuilderName .treeBuilder)
    (htree : (world []).registry.BoundTo Registry.treeRunnerName .treeRunner)
    (hrunner : (world []).registry.BoundTo Registry.runnerName .runner) :
    (parseThenRun world fuel d = askLatest world fuel Registry.runnerName d ↔
      FloatsKept (world []).registry d) ∧
    (¬ FloatsKept (world []).registry d →
      parseThenRun world fuel d = some (.error .malformed, "")) := by
  by_cases hcompiled : ∃ request p, ProgramRequest.ofDocument? d = some request ∧
      compile (world []).registry request = .ok p
  · obtain ⟨request, p, hrequest, hcompile⟩ := hcompiled
    have hkept : FloatsKept (world []).registry d ↔ p.floatsFinite := by
      refine ⟨fun h => h request p hrequest hcompile, fun h request' p' hrequest' hcompile' => ?_⟩
      cases hrequest.symm.trans hrequest'
      cases hcompile.symm.trans hcompile'
      exact h
    rw [hkept, parseThenRun_of_compiled fuel hbuilder htree hrequest hcompile,
      run_of_compiled fuel hrunner hrequest hcompile]
    cases p.floatsFinite with
    | false => simpa using (reply_runTree_ne_malformed world fuel p .unlimited "").symm
    | true => simp
  · have hnone : ∀ request p, ProgramRequest.ofDocument? d = some request →
        compile (world []).registry request ≠ .ok p :=
      fun request p hrequest hcompile => hcompiled ⟨request, p, hrequest, hcompile⟩
    have hkept : FloatsKept (world []).registry d :=
      fun request p hrequest hcompile => absurd hcompile (hnone request p hrequest)
    exact ⟨⟨fun _ => hkept, fun _ => parseThenRun_of_not_compiled fuel hbuilder hrunner hnone⟩,
      fun h => absurd hkept h⟩

/-- A world with the services of the language and nothing else, whose clock counts what happens. -/
def builtinWorld : World :=
  fun events => { registry := .builtin, clock := events.length.toFloat }

theorem builtinWorld_boundTo :
    (builtinWorld []).registry.BoundTo tokenizerName .tokenizer ∧
      (builtinWorld []).registry.BoundTo Registry.treeBuilderName .treeBuilder ∧
      (builtinWorld []).registry.BoundTo Registry.treeRunnerName .treeRunner ∧
      (builtinWorld []).registry.BoundTo Registry.runnerName .runner :=
  ⟨⟨_, rfl⟩, ⟨_, rfl⟩, ⟨_, rfl⟩, ⟨_, rfl⟩⟩

/-- The request to print a float from a file called `main`. -/
def printRequest (whole decimals : String) : Document :=
  (ProgramRequest.mk [⟨"main", printFloat whole decimals⟩]).toDocument.canonical

theorem parseThenRun_small_float :
    FloatsKept (builtinWorld []).registry (printRequest "1" "5") ∧
      ∀ fuel, parseThenRun builtinWorld fuel (printRequest "1" "5") =
        askLatest builtinWorld fuel Registry.runnerName (printRequest "1" "5") := by
  obtain ⟨htokenizer, hbuilder, htree, hrunner⟩ := builtinWorld_boundTo
  have hkept : FloatsKept (builtinWorld []).registry (printRequest "1" "5") :=
    (floatsKept_printFloat htokenizer (by decide) (by decide) (by decide)).2 (by decide +kernel)
  exact ⟨hkept, fun fuel =>
    (parseThenRun_eq_run_iff builtinWorld fuel _ hbuilder htree hrunner).1.2 hkept⟩

/-- The digits of a number beyond all floats. -/
def hugeDigits : List Char := '1' :: List.replicate 309 '0'

/-- The float that these digits and one decimal make. -/
def hugeFloat : Float := Float.ofScientific (Number.natOfDigits (hugeDigits ++ ['0'])) true 1

/-- Sent to be run, a program with an infinite float prints it. Sent as a tree, it is refused. -/
theorem parseThenRun_huge_float :
    askLatest builtinWorld 2 Registry.runnerName (printRequest (String.ofList hugeDigits) "0") =
        some (.ok doneReply.canonical, "inf\n") ∧
      parseThenRun builtinWorld 2 (printRequest (String.ofList hugeDigits) "0") =
        some (.error .malformed, "") := by
  obtain ⟨htokenizer, hbuilder, htree, hrunner⟩ := builtinWorld_boundTo
  have hfloat : Literal.float (String.ofList hugeDigits) "0" = .float hugeFloat := by
    unfold Literal.float
    rw [String.toList_ofList]
    rfl
  have hshown : (Value.float hugeFloat).shown = "inf" := by decide +kernel
  have hinfinite : hugeFloat.isFinite = false := by decide +kernel
  have hdigits : Literal.isDigits (String.ofList hugeDigits) :=
    isDigits_ofList (List.cons_ne_nil _ _) (by decide +kernel)
  obtain ⟨position, hcompile⟩ := compile_printFloat htokenizer (by decide : "main" ≠ "") hdigits
    (by decide : Literal.isDigits "0")
  rw [hfloat] at hcompile
  have hrequest := ProgramRequest.ofDocument?_canonical
    ⟨[⟨"main", printFloat (String.ofList hugeDigits) "0"⟩]⟩
  constructor
  · rw [printRequest, run_of_compiled 2 hrunner hrequest hcompile,
      runTree_print_float (by rw [hshown]; decide), hshown]
    rfl
  · rw [printRequest, parseThenRun_of_compiled 2 hbuilder htree hrequest hcompile, if_neg]
    simp [Program.floatsFinite, Action.floatsFinite, Expr.floatsFinite, hinfinite]

end GotoScript
