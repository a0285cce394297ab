import GotoScript.Program.Tree

/-!
# Reading back the documents of programs

* `Program.floatsFinite` : no float of a program is infinite or not a number;
* `Expr.ofDocument?_canonical`, `Statement.ofDocument?_canonical` : what was written in the form in
  which documents are sent is read back, or refused if a float was lost on the way;
* `Program.ofDocument?_canonical` : so is a whole program.

Each is stated with `if … then some … else none`, which settles both what is read back and what is
refused in one induction.
-/

namespace GotoScript

/-! ## Records as they are sent -/

namespace Document

theorem mapM_items? {α : Type} (items : List Document) (read : Document → Option α) :
    ((list items).items?.bind fun parts => parts.mapM fun part => read part.1) =
      items.mapM read := by
  unfold items?
  rw [Option.bind_some, List.mapM_map]
  change items.attach.mapM (read ∘ Subtype.val) = _
  rw [← List.mapM_map, List.attach_map_subtype_val]

theorem canonical_list (items : List Document) :
    (list items).canonical = list (canonicalItems items) := rfl

theorem canonicalItems_eq_map (items : List Document) :
    canonicalItems items = items.map canonical := by
  induction items with
  | nil => rfl
  | cons d rest ih => rw [canonicalItems, ih, List.map_cons]

/-- A list of readable items is readable. -/
theorem listOf?_map {α : Type} {read : Document → Option α} {write : α → Document}
    (h : ∀ a, read (write a) = some a) (l : List α) : (list (l.map write)).listOf? read = some l := by
  unfold listOf?
  induction l with
  | nil => rfl
  | cons a rest ih =>
    simp only at ih
    simp only [List.map_cons, List.mapM_cons, h, ih]
    rfl

theorem listOf?_canonical {α : Type} {read : Document → Option α} {write : α → Document}
    (h : ∀ a, read (write a).canonical = some a) (l : List α) :
    (list (l.map write)).canonical.listOf? read = some l := by
  rw [canonical_list, canonicalItems_eq_map, List.map_map]
  exact listOf?_map h l

/-- A record with two fields, in the order in which they are asked for. -/
theorem record?_pair {a b : String} (hne : a ≠ b) (x y : Document) :
    ∃ hx hy, (object [(a, x), (b, y)]).record? [[a], [b]] = some [some ⟨x, hx⟩, some ⟨y, hy⟩] := by
  have hne' : b ≠ a := hne.symm
  refine ⟨?_, ?_, ?_⟩
  · simp
    omega
  · simp
    omega
  · simp [record?, named, one?, hne, hne']

/-- A record with two fields, in the other order. -/
theorem record?_pair_swap {a b : String} (hne : a ≠ b) (x y : Document) :
    ∃ hx hy, (object [(b, y), (a, x)]).record? [[a], [b]] = some [some ⟨x, hx⟩, some ⟨y, hy⟩] := by
  have hne' : b ≠ a := hne.symm
  refine ⟨?_, ?_, ?_⟩
  · simp
    omega
  · simp
    omega
  · simp [record?, named, one?, hne, hne']

/-- The fields of an object with two fields that stand in order are sent in that order. -/
theorem canonical_pair {a b : String} (h : a < b) (x y : Document) :
    (object [(a, x), (b, y)]).canonical = object [(a, x.canonical), (b, y.canonical)] := by
  simp [canonical, canonicalFields, insertField, h]

/-- Two fields that stand out of order are sent in the other order. -/
theorem canonical_pair_swap {a b : String} (h : ¬ a < b) (x y : Document) :
    (object [(a, x), (b, y)]).canonical = object [(b, y.canonical), (a, x.canonical)] := by
  simp [canonical, canonicalFields, insertField, h]

theorem canonical_int (n : Int) : (int n).canonical = int n := rfl

theorem typeAndValue?_tagged (type : String) (value : Document) :
    ∃ h, (object [("type", text type), ("value", value)]).typeAndValue? =
      some (type, some ⟨value, h⟩) := by
  obtain ⟨ht, hv, hrecord⟩ := record?_pair (by decide : "type" ≠ "value") (text type) value
  exact ⟨hv, by simp [typeAndValue?, hrecord, nameOrField?]⟩

theorem typeAndValue?_alone (type : String) :
    (object [("type", text type)]).typeAndValue? = some (type, none) := by
  simp [typeAndValue?, record?, named, one?, nameOrField?]

theorem intWithin?_of_mem {low high n : Int} (hlow : low ≤ n) (hhigh : n < high) :
    (int n).intWithin? low high = some n := by
  unfold intWithin?
  exact if_pos ⟨hlow, hhigh⟩

theorem int64?_toInt (n : Int64) : (int n.toInt).int64? = some n := by
  have hlow : -((Nat.pow 2 63 : Nat) : Int) ≤ n.toInt := n.le_toInt
  have hhigh : n.toInt < ((Nat.pow 2 63 : Nat) : Int) := n.toInt_lt
  unfold int64?
  rw [intWithin?_of_mem hlow hhigh, Option.map_some, Int64.ofInt_toInt]

theorem uint32?_toNat (n : UInt32) : (int n.toNat).uint32? = some n := by
  have hhigh : (n.toNat : Int) < UInt32.size := Int.ofNat_lt.2 n.toNat_lt
  unfold uint32?
  rw [intWithin?_of_mem (by omega) hhigh, Option.map_some, Int.toNat_natCast, UInt32.ofNat_toNat]

theorem uint64?_toNat (n : UInt64) : (int n.toNat).uint64? = some n := by
  have hhigh : (n.toNat : Int) < UInt64.size := Int.ofNat_lt.2 n.toNat_lt
  unfold uint64?
  rw [intWithin?_of_mem (by omega) hhigh, Option.map_some, Int.toNat_natCast, UInt64.ofNat_toNat]

end Document

/-! ## Positions and tokens -/

namespace Position

theorem canonical_toDocument (p : Position) :
    p.toDocument.canonical =
      .object [("column", .int p.column.toNat), ("file", .text p.file), ("line", .int p.line.toNat)] :=
  rfl

theorem ofDocument?_sent (file line column : Document) :
    ofDocument? (.object [("column", column), ("file", file), ("line", line)]) =
      file.text?.bind fun f => line.uint32?.bind fun l => column.uint32?.bind fun c =>
        some ⟨f, l, c⟩ := by
  simp [ofDocument?, Document.record?, Document.named, Document.one?]

theorem ofDocument?_canonical (p : Position) : ofDocument? p.toDocument.canonical = some p := by
  rw [canonical_toDocument, ofDocument?_sent, Document.uint32?_toNat, Document.uint32?_toNat]
  rfl

end Position

namespace Token

theorem canonical_toDocument (t : Token) :
    t.toDocument.canonical =
      .object [("position", t.position.toDocument.canonical), ("text", .text t.text),
        ("width", .int t.width.toNat)] :=
  rfl

theorem ofDocument?_sent (text position width : Document) :
    ofDocument? (.object [("position", position), ("text", text), ("width", width)]) =
      text.text?.bind fun s => (Position.ofDocument? position).bind fun p =>
        width.uint64?.bind fun w => some ⟨s, p, w⟩ := by
  simp [ofDocument?, Document.record?, Document.named, Document.one?]

theorem ofDocument?_canonical (t : Token) : ofDocument? t.toDocument.canonical = some t := by
  rw [canonical_toDocument, ofDocument?_sent, Position.ofDocument?_canonical,
    Document.uint64?_toNat]
  rfl

end Token

/-! ## Expressions -/

namespace Expr

mutual

/-- No float in the expression is infinite or not a number. -/
def floatsFinite : Expr → Bool
  | float x => x.isFinite
  | chain operands _ => allFinite operands
  | field root _ => root.floatsFinite
  | index root key => root.floatsFinite && key.floatsFinite
  | call root args => root.floatsFinite && allFinite args
  | not e | negate e => e.floatsFinite
  | _ => true

def allFinite : List Expr → Bool
  | [] => true
  | e :: rest => e.floatsFinite && allFinite rest

end

/-- An expression with a value, as it is sent. -/
def sent (type : String) (value : Document) : Document :=
  .object [("type", .text type), ("value", value)]

theorem canonical_tagged (type : String) (value : Document) :
    (tagged type value).canonical = sent type value.canonical :=
  Document.canonical_pair (by decide) _ _

/-- The way to read the value of a type, for those types whose value is not a record. -/
def reader? : String → Option (Document → Option Expr)
  | "int" => some fun v => v.int64?.map .int
  | "float" => some fun v => v.float?.map .float
  | "str" => some fun v => v.text?.map .text
  | "bool" => some fun v => v.bool?.map .bool
  | "variable" => some fun v => v.text?.map .var
  | "system_func" => some fun v => v.text?.map .system
  | "not" => some fun v => (ofDocument? v).map .not
  | "neg" => some fun v => (ofDocument? v).map .negate
  | _ => none

theorem ofDocument?_of_reader? {type : String} {read : Document → Option Expr}
    (h : reader? type = some read) (value : Document) :
    ofDocument? (sent type value) = read value := by
  obtain ⟨_, htype⟩ := Document.typeAndValue?_tagged type value
  rw [ofDocument?, sent, htype]
  unfold reader? at h
  split at h
  all_goals cases h
  all_goals rfl

theorem ofDocument?_null : ofDocument? (.object [("type", .text "null")]) = some .null := by
  rw [ofDocument?, Document.typeAndValue?_alone]
  rfl

theorem ofDocument?_serviceRoot :
    ofDocument? (.object [("type", .text "service_root")]) = some .serviceRoot := by
  rw [ofDocument?, Document.typeAndValue?_alone]
  rfl

theorem ofDocument?_field (root name : Document) :
    ofDocument? (sent "field" (.object [("name", name), ("root", root)])) =
      (ofDocument? root).bind fun r => name.text?.bind fun n => some (.field r n) := by
  obtain ⟨_, htype⟩ :=
    Document.typeAndValue?_tagged "field" (.object [("name", name), ("root", root)])
  obtain ⟨_, _, hrecord⟩ := Document.record?_pair_swap (by decide : "root" ≠ "name") root name
  rw [ofDocument?, sent, htype]
  simp only [Option.bind_eq_bind, Option.bind_some, hrecord, Option.pure_def]

theorem ofDocument?_index (root key : Document) :
    ofDocument? (sent "index" (.object [("key", key), ("root", root)])) =
      (ofDocument? root).bind fun r => (ofDocument? key).bind fun k => some (.index r k) := by
  obtain ⟨_, htype⟩ :=
    Document.typeAndValue?_tagged "index" (.object [("key", key), ("root", root)])
  obtain ⟨_, _, hrecord⟩ := Document.record?_pair_swap (by decide : "root" ≠ "key") root key
  rw [ofDocument?, sent, htype]
  simp only [Option.bind_eq_bind, Option.bind_some, hrecord, Option.pure_def]

theorem ofDocument?_call (root : Document) (args : List Document) :
    ofDocument? (sent "invoke" (.object [("args", .list args), ("root", root)])) =
      (ofDocument? root).bind fun r => (args.mapM ofDocument?).bind fun as =>
        some (.call r as) := by
  obtain ⟨_, htype⟩ :=
    Document.typeAndValue?_tagged "invoke" (.object [("args", .list args), ("root", root)])
  obtain ⟨_, _, hrecord⟩ :=
    Document.record?_pair_swap (by decide : "root" ≠ "args") root (.list args)
  rw [ofDocument?, sent, htype, ← Document.mapM_items?]
  simp only [Option.bind_eq_bind, Option.bind_some, hrecord, Option.pure_def, Option.bind_assoc]

theorem ofDocument?_chain (operands : List Document) (operators : Document) :
    ofDocument? (sent "ops_chain"
        (.object [("operands", .list operands), ("operators", operators)])) =
      (operands.mapM ofDocument?).bind fun es =>
        (operators.listOf? Token.ofDocument?).bind fun ts => some (.chain es ts) := by
  obtain ⟨_, htype⟩ := Document.typeAndValue?_tagged "ops_chain"
    (.object [("operands", .list operands), ("operators", operators)])
  obtain ⟨_, _, hrecord⟩ :=
    Document.record?_pair (by decide : "operands" ≠ "operators") (.list operands) operators
  rw [ofDocument?, sent, htype, ← Document.mapM_items?]
  simp only [Option.bind_eq_bind, Option.bind_some, hrecord, Option.pure_def, Option.bind_assoc]

mutual

/-- An expression is read back from the document that is sent, unless a float was lost. -/
theorem ofDocument?_canonical (e : Expr) :
    ofDocument? e.toDocument.canonical = if e.floatsFinite then some e else none := by
  match e with
  | .int n =>
    rw [toDocument, canonical_tagged, ofDocument?_of_reader? rfl, Document.canonical_int,
      Document.int64?_toInt]
    rfl
  | .float x =>
    rw [toDocument, canonical_tagged, ofDocument?_of_reader? rfl, Document.canonical, floatsFinite]
    cases x.isFinite <;> rfl
  | .text s =>
    rw [toDocument, canonical_tagged, ofDocument?_of_reader? rfl]
    rfl
  | .bool b =>
    rw [toDocument, canonical_tagged, ofDocument?_of_reader? rfl]
    rfl
  | .null => exact ofDocument?_null
  | .var name =>
    rw [toDocument, canonical_tagged, ofDocument?_of_reader? rfl]
    rfl
  | .system name =>
    rw [toDocument, canonical_tagged, ofDocument?_of_reader? rfl]
    rfl
  | .serviceRoot => exact ofDocument?_serviceRoot
  | .chain operands operators =>
    rw [toDocument, canonical_tagged, Document.canonical_pair (by decide), Document.canonical_list,
      ofDocument?_chain, mapM_canonicalItems operands,
      Document.listOf?_canonical Token.ofDocument?_canonical, floatsFinite]
    cases allFinite operands <;> rfl
  | .field root name =>
    rw [toDocument, canonical_tagged, Document.canonical_pair_swap (by decide), ofDocument?_field,
      ofDocument?_canonical root, floatsFinite]
    cases root.floatsFinite <;> rfl
  | .index root key =>
    rw [toDocument, canonical_tagged, Document.canonical_pair_swap (by decide), ofDocument?_index,
      ofDocument?_canonical root, ofDocument?_canonical key, floatsFinite]
    cases root.floatsFinite <;> cases key.floatsFinite <;> rfl
  | .call root args =>
    rw [toDocument, canonical_tagged, Document.canonical_pair_swap (by decide),
      Document.canonical_list, ofDocument?_call, ofDocument?_canonical root,
      mapM_canonicalItems args, floatsFinite]
    cases root.floatsFinite <;> cases allFinite args <;> rfl
  | .not e =>
    rw [toDocument, canonical_tagged, ofDocument?_of_reader? rfl, ofDocument?_canonical e,
      floatsFinite]
    cases e.floatsFinite <;> rfl
  | .negate e =>
    rw [toDocument, canonical_tagged, ofDocument?_of_reader? rfl, ofDocument?_canonical e,
      floatsFinite]
    cases e.floatsFinite <;> rfl

theorem mapM_canonicalItems (es : List Expr) :
    (Document.canonicalItems (toDocuments es)).mapM ofDocument? =
      if allFinite es then some es else none := by
  match es with
  | [] => rfl
  | e :: rest =>
    rw [toDocuments, Document.canonicalItems, List.mapM_cons, ofDocument?_canonical e,
      mapM_canonicalItems rest, allFinite]
    cases e.floatsFinite <;> cases allFinite rest <;> rfl

end

end Expr

/-! ## Statements and programs -/

namespace Document

theorem lookup_cons_ite (name wanted : String) (value : Document)
    (fields : List (String × Document)) :
    ((name, value) :: fields).lookup wanted =
      if wanted = name then some value else fields.lookup wanted := by
  rw [List.lookup_cons]
  by_cases h : wanted = name
  · rw [if_pos h, beq_iff_eq.2 h]
  · rw [if_neg h, beq_false_of_ne h]

theorem lookup_insertField {name : String} {fields : List (String × Document)}
    (hnew : name ∉ fields.map Prod.fst) (value : Document) (wanted : String) :
    (insertField name value fields).lookup wanted =
      if wanted = name then some value else fields.lookup wanted := by
  induction fields with
  | nil => exact lookup_cons_ite ..
  | cons field rest ih =>
    obtain ⟨n, v⟩ := field
    obtain ⟨hne, hrest⟩ := not_or.1 (mt List.mem_cons.2 hnew)
    unfold insertField
    split
    · exact lookup_cons_ite ..
    · rw [lookup_cons_ite, lookup_cons_ite, ih hrest]
      by_cases hn : wanted = n
      · rw [if_pos hn, if_pos hn, if_neg (fun h => hne (h.symm.trans hn))]
      · rw [if_neg hn, if_neg hn]

theorem mem_insertField {name wanted : String} {value : Document}
    {fields : List (String × Document)} :
    wanted ∈ (insertField name value fields).map Prod.fst ↔
      wanted = name ∨ wanted ∈ fields.map Prod.fst := by
  induction fields with
  | nil => simp [insertField]
  | cons field rest ih =>
    unfold insertField
    split
    · simp
    · simp only [List.map_cons, List.mem_cons, ih]
      exact or_left_comm

theorem mem_canonicalFields {wanted : String} {fields : List (String × Document)} :
    wanted ∈ (canonicalFields fields).map Prod.fst ↔ wanted ∈ fields.map Prod.fst := by
  induction fields with
  | nil => rfl
  | cons field rest ih =>
    rw [canonicalFields, mem_insertField, ih, List.map_cons, List.mem_cons]

/-- Sorting fields of different names changes nothing about what stands under a name. -/
theorem lookup_canonicalFields {fields : List (String × Document)}
    (hnodup : (fields.map Prod.fst).Nodup) (wanted : String) :
    (canonicalFields fields).lookup wanted = (fields.lookup wanted).map canonical := by
  induction fields with
  | nil => rfl
  | cons field rest ih =>
    obtain ⟨n, v⟩ := field
    obtain ⟨hnew, hrest⟩ := List.nodup_cons.1 hnodup
    rw [canonicalFields, lookup_insertField (mt mem_canonicalFields.1 hnew), ih hrest,
      lookup_cons_ite]
    by_cases h : wanted = n
    · rw [if_pos h, if_pos h, Option.map_some]
    · rw [if_neg h, if_neg h]

end Document

namespace Action

def floatsFinite : Action → Bool
  | branch condition _ _ => condition.floatsFinite
  | print e | evaluate e => e.floatsFinite
  | assign target value => target.floatsFinite && value.floatsFinite
  | label _ | jump _ => true

/-- The fields of a statement have different names. -/
theorem nodup_toFields (a : Action) (position : Document) :
    ((a.toFields ++ [("position", position)]).map Prod.fst).Nodup := by
  cases a <;> simp [toFields]

theorem ofFields?_canonical (a : Action) (position : Document) :
    ofFields? (Document.canonicalFields (a.toFields ++ [("position", position)])) =
      if a.floatsFinite then some a else none := by
  unfold ofFields?
  simp only [Document.lookup_canonicalFields (a.nodup_toFields position)]
  cases a with
  | label name => rfl
  | branch condition whenTrue whenFalse =>
    have hfalse : Document.optionalText?
        (some ((whenFalse.map Document.text).getD .null).canonical) = some whenFalse := by
      cases whenFalse <;> rfl
    change ((Expr.ofDocument? condition.toDocument.canonical).bind fun c =>
      (Document.optionalText? (some ((whenFalse.map Document.text).getD .null).canonical)).bind
        fun f => some (branch c whenTrue f)) = _
    rw [Expr.ofDocument?_canonical, hfalse, floatsFinite]
    cases condition.floatsFinite <;> rfl
  | jump target => rfl
  | print e =>
    change ((Expr.ofDocument? e.toDocument.canonical).bind fun e => some (print e)) = _
    rw [Expr.ofDocument?_canonical, floatsFinite]
    cases e.floatsFinite <;> rfl
  | assign target value =>
    change ((Expr.ofDocument? target.toDocument.canonical).bind fun t =>
      (Expr.ofDocument? value.toDocument.canonical).bind fun v => some (assign t v)) = _
    rw [Expr.ofDocument?_canonical, Expr.ofDocument?_canonical, floatsFinite]
    cases target.floatsFinite <;> cases value.floatsFinite <;> rfl
  | evaluate e =>
    change ((Expr.ofDocument? e.toDocument.canonical).bind fun e => some (evaluate e)) = _
    rw [Expr.ofDocument?_canonical, floatsFinite]
    cases e.floatsFinite <;> rfl

end Action

namespace Statement

theorem ofDocument?_object (fields : List (String × Document)) :
    ofDocument? (.object fields) =
      (Action.ofFields? fields).bind fun a =>
        ((fields.lookup "position").bind Position.ofDocument?).bind fun p => some ⟨a, p⟩ := rfl

theorem ofDocument?_canonical (s : Statement) :
    ofDocument? s.toDocument.canonical = if s.action.floatsFinite then some s else none := by
  have hlookup : (s.action.toFields ++ [("position", s.position.toDocument)]).lookup "position" =
      some s.position.toDocument := by
    cases s.action <;> rfl
  rw [toDocument, Document.canonical, ofDocument?_object, Action.ofFields?_canonical,
    Document.lookup_canonicalFields (s.action.nodup_toFields _), hlookup, Option.map_some,
    Option.bind_some, Position.ofDocument?_canonical]
  cases s.action.floatsFinite <;> rfl

end Statement

namespace Program

/-- No float in the program is infinite or not a number. -/
def floatsFinite (p : Program) : Bool :=
  p.statements.all fun s => s.action.floatsFinite

theorem mapM_canonicalItems (statements : List Statement) :
    (Document.canonicalItems (statements.map Statement.toDocument)).mapM Statement.ofDocument? =
      if statements.all fun s => s.action.floatsFinite then some statements else none := by
  induction statements with
  | nil => rfl
  | cons s rest ih =>
    rw [List.map_cons, Document.canonicalItems, List.mapM_cons, Statement.ofDocument?_canonical, ih,
      List.all_cons]
    cases s.action.floatsFinite
    · rfl
    · cases rest.all fun s => s.action.floatsFinite <;> rfl

theorem ofDocument?_sent (statements : List Document) :
    ofDocument? (.object [("statements", .list statements)]) =
      (statements.mapM Statement.ofDocument?).bind fun ss => some ⟨ss⟩ := by
  simp [ofDocument?, Document.record?, Document.named, Document.one?, Document.listOf?]

/-- A program is read back from the document that is sent, unless a float was lost. -/
theorem ofDocument?_canonical (p : Program) :
    ofDocument? p.toDocument.canonical = if p.floatsFinite then some p else none := by
  have hsent : p.toDocument.canonical = .object [("statements",
      .list (Document.canonicalItems (p.statements.map Statement.toDocument)))] := rfl
  rw [hsent, ofDocument?_sent, mapM_canonicalItems, floatsFinite]
  cases p.statements.all fun s => s.action.floatsFinite <;> rfl

end Program

end GotoScript
