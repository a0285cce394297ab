import GotoScript.Proofs.Documents.Records

/-!
# Programs are read in any order of fields

* `Document.typed?_canonical` : the type of an expression and its value do not depend on the order of
  fields;
* `Expr.ofDocument?_sorted`, `Statement.ofDocument?_sorted`, `Program.ofDocument?_sorted` : sorting the
  fields of a proper document changes nothing about what is read from it;
* `Program.proper_toDocument` : the document of a program is proper if its floats are finite;
* `Program.ofDocument?_of_same_fields` : so a program is read back from its document, whatever order
  the fields stand in.
-/

namespace GotoScript

/-! ## The types of expressions -/

namespace Document

theorem nameOrField?_of_two_le {fields : List (String × Document)} (h : 2 ≤ fields.length) :
    (object fields).nameOrField? = none := by
  match fields with
  | [] | [_] => simp at h
  | (_, value) :: second :: rest =>
    cases value with
    | object inner => cases inner <;> rfl
    | _ => rfl

/-- The name of a type is found in whatever order fields are sent. -/
theorem nameOrField?_canonical {d : Document} (hd : d.Proper) :
    d.canonical.nameOrField? = d.nameOrField? := by
  cases hd with
  | float h => rw [canonical_float h]
  | @object fields _ h =>
    match fields with
    | [] => rfl
    | [(name, value)] =>
      cases h (name, value) List.mem_cons_self with
      | float hx =>
        rw [canonical, canonicalFields, canonicalFields, canonical_float hx]
        rfl
      | @object inner _ _ =>
        cases inner with
        | nil => rfl
        | cons field more =>
          obtain ⟨next, rest, hsorted⟩ := List.exists_cons_of_ne_nil
            (insertField_ne_nil field.1 field.2.canonical (canonicalFields more))
          rw [canonical, canonicalFields, canonicalFields, canonical, canonicalFields, hsorted]
          rfl
      | _ => rfl
    | first :: second :: rest =>
      have hlong : 2 ≤ (first :: second :: rest).length := by simp
      have hsorted : 2 ≤ (canonicalFields (first :: second :: rest)).length := by
        simp [(canonicalFields_perm (first :: second :: rest)).length_eq]
      rw [canonical, nameOrField?_of_two_le hlong, nameOrField?_of_two_le hsorted]
  | _ => rfl

/-- The type of an expression and its value, as `typeAndValue?` finds them. -/
def typed? (d : Document) : Option (String × Option Document) :=
  d.typeAndValue?.map fun found => (found.1, found.2.map Subtype.val)

/-- What the fields `type` and `value` of a document say. -/
def typeOf? (d : Document) : List (Option Document) → Option (String × Option Document)
  | [some type, value] =>
    match d, value with
    | list _, none => none
    | list _, value => (type.nameOrPlace? Expr.types).map (·, value)
    | _, value => type.nameOrField?.map (·, value)
  | _ => none

theorem typed?_eq (d : Document) :
    d.typed? = (d.values? [["type"], ["value"]]).bind d.typeOf? := by
  unfold typed? typeAndValue? values?
  cases hparts : d.record? [["type"], ["value"]] with
  | none => rfl
  | some parts =>
    obtain ⟨type, value, rfl⟩ := List.length_eq_two.1 (record?_length hparts)
    simp only [Option.bind_eq_bind, Option.bind_some, Option.map_some, List.map_cons, List.map_nil]
    cases type with
    | none => rfl
    | some type =>
      cases d with
      | list items =>
        cases value with
        | none => rfl
        | some value => cases hname : type.1.nameOrPlace? Expr.types <;> simp [typeOf?, hname]
      | _ => cases hname : type.1.nameOrField? <;> simp [typeOf?, hname]

theorem typeOf?_canonical {d : Document} (hd : d.Proper) {values : List (Option Document)}
    (hlength : values.length = 2) (h : ∀ part, some part ∈ values → part.Proper) :
    d.canonical.typeOf? (values.map (Option.map canonical)) =
      (d.typeOf? values).map fun found => (found.1, found.2.map canonical) := by
  obtain ⟨type, value, rfl⟩ := List.length_eq_two.1 hlength
  cases type with
  | none => rfl
  | some type =>
    have htype := h type List.mem_cons_self
    cases hd with
    | list _ =>
      cases value with
      | none => rfl
      | some value =>
        rw [canonical_list]
        simp [typeOf?, htype.nameOrPlace?_canonical, Function.comp_def]
    | float hx =>
      rw [canonical_float hx]
      simp [typeOf?, nameOrField?_canonical htype, Function.comp_def]
    | _ => simp [canonical, typeOf?, nameOrField?_canonical htype, Function.comp_def]

/-- The type of an expression and its value do not depend on the order of fields. -/
theorem typed?_canonical {d : Document} (hd : d.Proper) :
    d.canonical.typed? = d.typed?.map fun found => (found.1, found.2.map canonical) := by
  rw [typed?_eq, typed?_eq, values?_canonical]
  cases hvalues : d.values? [["type"], ["value"]] with
  | none => rfl
  | some values =>
    exact typeOf?_canonical hd (values?_length hvalues) fun part hpart =>
      hd.of_mem_inside (mem_inside_of_values? hvalues hpart)

/-- The value of an expression is one of the documents inside it. -/
theorem mem_inside_of_typed? {d value : Document} {type : String}
    (h : d.typed? = some (type, some value)) : value ∈ d.inside := by
  rw [typed?_eq] at h
  obtain ⟨values, hvalues, h⟩ := Option.bind_eq_some_iff.1 h
  refine mem_inside_of_values? hvalues ?_
  unfold typeOf? at h
  split at h
  · split at h
    · cases h
    · obtain ⟨name, -, heq⟩ := Option.map_eq_some_iff.1 h
      cases heq
      exact List.mem_cons_of_mem _ List.mem_cons_self
    · obtain ⟨name, -, heq⟩ := Option.map_eq_some_iff.1 h
      cases heq
      exact List.mem_cons_of_mem _ List.mem_cons_self
  · cases h

end Document

/-! ## Positions, tokens and expressions -/

namespace Position

/-- Reads a position from its fields. -/
def ofParts? : List Document → Option Position
  | [file, line, column] => do return ⟨← file.text?, ← line.uint32?, ← column.uint32?⟩
  | _ => none

theorem ofDocument?_eq (d : Document) :
    ofDocument? d = d.needed? ["file", "line", "column"] ofParts? := by
  refine Document.record?_bind_eq_needed? ["file", "line", "column"] fun parts hlength => ?_
  obtain ⟨file, line, column, rfl⟩ := List.length_eq_three.1 hlength
  cases file <;> cases line <;> cases column <;> rfl

theorem ofDocument?_sorted {d : Document} (hd : d.Proper) :
    ofDocument? d.canonical = ofDocument? d := by
  rw [ofDocument?_eq, ofDocument?_eq]
  refine Document.needed?_sorted fun values hlength hinside => ?_
  obtain ⟨file, line, column, rfl⟩ := List.length_eq_three.1 hlength
  have hfile := hd.of_mem_inside (hinside file (by simp))
  have hline := hd.of_mem_inside (hinside line (by simp))
  have hcolumn := hd.of_mem_inside (hinside column (by simp))
  simp only [List.map_cons, List.map_nil, ofParts?, hfile.text?_canonical, hline.uint32?_canonical,
    hcolumn.uint32?_canonical]

end Position

namespace Token

/-- Reads a token from its fields. -/
def ofParts? : List Document → Option Token
  | [text, position, width] => do
    return ⟨← text.text?, ← Position.ofDocument? position, ← width.uint64?⟩
  | _ => none

theorem ofDocument?_eq (d : Document) :
    ofDocument? d = d.needed? ["text", "position", "width"] ofParts? := by
  refine Document.record?_bind_eq_needed? ["text", "position", "width"] fun parts hlength => ?_
  obtain ⟨text, position, width, rfl⟩ := List.length_eq_three.1 hlength
  cases text <;> cases position <;> cases width <;> rfl

theorem ofDocument?_sorted {d : Document} (hd : d.Proper) :
    ofDocument? d.canonical = ofDocument? d := by
  rw [ofDocument?_eq, ofDocument?_eq]
  refine Document.needed?_sorted fun values hlength hinside => ?_
  obtain ⟨text, position, width, rfl⟩ := List.length_eq_three.1 hlength
  have htext := hd.of_mem_inside (hinside text (by simp))
  have hposition := hd.of_mem_inside (hinside position (by simp))
  have hwidth := hd.of_mem_inside (hinside width (by simp))
  simp only [List.map_cons, List.map_nil, ofParts?, htext.text?_canonical,
    Position.ofDocument?_sorted hposition, hwidth.uint64?_canonical]

end Token

namespace Expr

/-- A value that says nothing, as `unit?` reads it. -/
def ofNothing? (e : Expr) : Option Document → Option Expr
  | none | some .null => some e
  | some _ => none

def fieldOf? : List Document → Option Expr
  | [root, name] => do return .field (← ofDocument? root) (← name.text?)
  | _ => none

def indexOf? : List Document → Option Expr
  | [root, key] => do return .index (← ofDocument? root) (← ofDocument? key)
  | _ => none

def callOf? : List Document → Option Expr
  | [root, args] => do return .call (← ofDocument? root) (← args.listOf? ofDocument?)
  | _ => none

def chainOf? : List Document → Option Expr
  | [operands, operators] => do
    return .chain (← operands.listOf? ofDocument?) (← operators.listOf? Token.ofDocument?)
  | _ => none

/-- Reads the value of an expression whose type is known. -/
def ofTyped? (type : String) (value : Option Document) : Option Expr :=
  match type, value with
  | "null", value => ofNothing? .null value
  | "service_root", value => ofNothing? .serviceRoot value
  | "field", some v => v.needed? ["root", "name"] fieldOf?
  | "index", some v => v.needed? ["root", "key"] indexOf?
  | "invoke", some v => v.needed? ["root", "args"] callOf?
  | "ops_chain", some v => v.needed? ["operands", "operators"] chainOf?
  | type, some v => (reader? type).bind (· v)
  | _, none => none

theorem ofDocument?_eq (d : Document) :
    ofDocument? d = d.typed?.bind fun found => ofTyped? found.1 found.2 := by
  rw [ofDocument?]
  unfold Document.typed?
  cases d.typeAndValue? with
  | none => rfl
  | some found =>
    simp only [Option.bind_eq_bind, Option.bind_some, Option.map_some, Document.items?_bind_mapM]
    split
    case h_1 value =>
      obtain _ | ⟨v, _⟩ := value
      · rfl
      · cases v <;> rfl
    case h_2 value =>
      obtain _ | ⟨v, _⟩ := value
      · rfl
      · cases v <;> rfl
    case h_11 v =>
      refine Document.record?_bind_eq_needed? ["root", "name"] fun parts hlength => ?_
      obtain ⟨root, name, rfl⟩ := List.length_eq_two.1 hlength
      cases root <;> cases name <;> rfl
    case h_12 v =>
      refine Document.record?_bind_eq_needed? ["root", "key"] fun parts hlength => ?_
      obtain ⟨root, key, rfl⟩ := List.length_eq_two.1 hlength
      cases root <;> cases key <;> rfl
    case h_13 v =>
      refine Document.record?_bind_eq_needed? ["root", "args"] fun parts hlength => ?_
      obtain ⟨root, args, rfl⟩ := List.length_eq_two.1 hlength
      cases root <;> cases args <;> rfl
    case h_14 v =>
      refine Document.record?_bind_eq_needed? ["operands", "operators"] fun parts hlength => ?_
      obtain ⟨operands, operators, rfl⟩ := List.length_eq_two.1 hlength
      cases operands <;> cases operators <;> rfl
    case h_15 =>
      obtain ⟨type, value⟩ := found
      cases value <;> simp_all [ofTyped?, reader?]
    all_goals rfl

theorem ofNothing?_sorted (e : Expr) {value : Document} (hv : value.Proper) :
    ofNothing? e (some value.canonical) = ofNothing? e (some value) := by
  cases hv with
  | float h => rw [Document.canonical_float h]
  | _ => rfl

section

variable {value : Document} (hv : value.Proper)
  (ih : ∀ d : Document, sizeOf d ≤ sizeOf value → d.Proper → ofDocument? d.canonical = ofDocument? d)
include hv ih

theorem ofDocument?_sorted_of_mem_inside {part : Document} (h : part ∈ value.inside) :
    ofDocument? part.canonical = ofDocument? part :=
  ih part (Nat.le_of_lt (Document.sizeOf_lt_of_mem_inside h)) (hv.of_mem_inside h)

theorem listOf?_sorted_of_mem_inside {part : Document} (h : part ∈ value.inside) :
    part.canonical.listOf? ofDocument? = part.listOf? ofDocument? := by
  refine Document.listOf?_sorted fun item hitem => ?_
  have hsize := Document.sizeOf_lt_of_mem_inside h
  have hitemSize := Document.sizeOf_lt_of_mem_inside hitem
  exact ih item (by omega) ((hv.of_mem_inside h).of_mem_inside hitem)

theorem reader?_sorted (type : String) :
    (reader? type).bind (· value.canonical) = (reader? type).bind (· value) := by
  have hself := ih value (Nat.le_refl _) hv
  unfold reader?
  split
  all_goals
    simp only [Option.bind_some, Option.bind_none, hself, hv.int64?_canonical, hv.float?_canonical,
      hv.text?_canonical, hv.bool?_canonical]

theorem ofTyped?_sorted (type : String) :
    ofTyped? type (some value.canonical) = ofTyped? type (some value) := by
  have hpart {part : Document} (h : part ∈ value.inside) :=
    ofDocument?_sorted_of_mem_inside hv ih h
  have hparts {part : Document} (h : part ∈ value.inside) := listOf?_sorted_of_mem_inside hv ih h
  have hname {part : Document} (h : part ∈ value.inside) := (hv.of_mem_inside h).text?_canonical
  have htokens {part : Document} (h : part ∈ value.inside) :
      part.canonical.listOf? Token.ofDocument? = part.listOf? Token.ofDocument? :=
    Document.listOf?_sorted fun item hitem =>
      Token.ofDocument?_sorted ((hv.of_mem_inside h).of_mem_inside hitem)
  unfold ofTyped?
  split
  case h_1 => exact ofNothing?_sorted .null hv
  case h_2 => exact ofNothing?_sorted .serviceRoot hv
  case h_3 heq =>
    cases heq
    refine Document.needed?_sorted fun values hlength hinside => ?_
    obtain ⟨root, name, rfl⟩ := List.length_eq_two.1 hlength
    simp only [List.map_cons, List.map_nil, fieldOf?, hpart (hinside root (by simp)),
      hname (hinside name (by simp))]
  case h_4 heq =>
    cases heq
    refine Document.needed?_sorted fun values hlength hinside => ?_
    obtain ⟨root, key, rfl⟩ := List.length_eq_two.1 hlength
    simp only [List.map_cons, List.map_nil, indexOf?, hpart (hinside root (by simp)),
      hpart (hinside key (by simp))]
  case h_5 heq =>
    cases heq
    refine Document.needed?_sorted fun values hlength hinside => ?_
    obtain ⟨root, args, rfl⟩ := List.length_eq_two.1 hlength
    simp only [List.map_cons, List.map_nil, callOf?, hpart (hinside root (by simp)),
      hparts (hinside args (by simp))]
  case h_6 heq =>
    cases heq
    refine Document.needed?_sorted fun values hlength hinside => ?_
    obtain ⟨operands, operators, rfl⟩ := List.length_eq_two.1 hlength
    simp only [List.map_cons, List.map_nil, chainOf?, hparts (hinside operands (by simp)),
      htokens (hinside operators (by simp))]
  case h_7 heq =>
    cases heq
    exact reader?_sorted hv ih _
  case h_8 heq => cases heq

end

/-- An expression is read alike from a document and from the form in which it is sent. -/
theorem ofDocument?_sorted (d : Document) (hd : d.Proper) :
    ofDocument? d.canonical = ofDocument? d := by
  rw [ofDocument?_eq, ofDocument?_eq d, Document.typed?_canonical hd]
  cases htyped : d.typed? with
  | none => rfl
  | some found =>
    obtain ⟨type, value⟩ := found
    cases value with
    | none => rfl
    | some value =>
      have hinside := Document.mem_inside_of_typed? htyped
      have hsize := Document.sizeOf_lt_of_mem_inside hinside
      exact ofTyped?_sorted (hd.of_mem_inside hinside)
        (fun part hle hpart => ofDocument?_sorted part hpart) type
termination_by sizeOf d

end Expr

/-! ## Statements and programs -/

namespace Action

section

variable {fields : List (String × Document)} (hnames : (fields.map Prod.fst).Nodup)
  (h : ∀ field ∈ fields, field.2.Proper)
include hnames h

theorem lookup_bind_sorted {α : Type} {read : Document → Option α}
    (hread : ∀ d, d.Proper → read d.canonical = read d) (name : String) :
    ((Document.canonicalFields fields).lookup name).bind read = (fields.lookup name).bind read := by
  rw [Document.lookup_canonicalFields hnames]
  cases hlookup : fields.lookup name with
  | none => rfl
  | some value =>
    obtain ⟨before, after, rfl, -⟩ := List.lookup_eq_some_iff.1 hlookup
    exact hread value (h (name, value) (by simp))

theorem optionalText?_lookup_sorted (name : String) :
    Document.optionalText? ((Document.canonicalFields fields).lookup name) =
      Document.optionalText? (fields.lookup name) := by
  rw [Document.lookup_canonicalFields hnames]
  cases hlookup : fields.lookup name with
  | none => rfl
  | some value =>
    obtain ⟨before, after, rfl, -⟩ := List.lookup_eq_some_iff.1 hlookup
    cases h (name, value) (by simp) with
    | float hx => rw [Option.map_some, Document.canonical_float hx]
    | _ => rfl

theorem ofFields?_sorted : ofFields? (Document.canonicalFields fields) = ofFields? fields := by
  have htype := lookup_bind_sorted hnames h
    (fun d hd => hd.nameOrPlace?_canonical types) "type"
  have hexpr := lookup_bind_sorted hnames h Expr.ofDocument?_sorted
  have htext := lookup_bind_sorted hnames h fun d hd => hd.text?_canonical
  unfold ofFields?
  simp only [Option.bind_eq_bind, htype, hexpr, htext, optionalText?_lookup_sorted hnames h]

end

end Action

namespace Statement

theorem ofDocument?_sorted (d : Document) (hd : d.Proper) :
    ofDocument? d.canonical = ofDocument? d := by
  cases hd with
  | float h => rw [Document.canonical_float h]
  | object hnames h =>
    have hposition := Action.lookup_bind_sorted hnames h
      (fun d hd => Position.ofDocument?_sorted hd) "position"
    rw [Document.canonical, ofDocument?_object, ofDocument?_object, hposition,
      Action.ofFields?_sorted hnames h]
  | _ => rfl

end Statement

namespace Program

/-- Reads a program from its one field. -/
def ofParts? : List Document → Option Program
  | [statements] => do return ⟨← statements.listOf? Statement.ofDocument?⟩
  | _ => none

theorem ofDocument?_eq (d : Document) : ofDocument? d = d.needed? ["statements"] ofParts? := by
  refine Document.record?_bind_eq_needed? ["statements"] fun parts hlength => ?_
  obtain ⟨statements, rfl⟩ := List.length_eq_one_iff.1 hlength
  cases statements <;> rfl

/-- A program is read alike from a document and from the form in which it is sent. -/
theorem ofDocument?_sorted {d : Document} (hd : d.Proper) :
    ofDocument? d.canonical = ofDocument? d := by
  rw [ofDocument?_eq, ofDocument?_eq]
  refine Document.needed?_sorted fun values hlength hinside => ?_
  obtain ⟨statements, rfl⟩ := List.length_eq_one_iff.1 hlength
  have hstatements := hd.of_mem_inside (hinside statements List.mem_cons_self)
  have hread : statements.canonical.listOf? Statement.ofDocument? =
      statements.listOf? Statement.ofDocument? :=
    Document.listOf?_sorted fun s hs =>
      Statement.ofDocument?_sorted s (hstatements.of_mem_inside hs)
  simp only [List.map_cons, List.map_nil, ofParts?, hread]

end Program

/-! ## The documents of programs are proper -/

namespace Document

theorem Proper.pair {a b : String} (hne : a ≠ b) {x y : Document} (hx : x.Proper) (hy : y.Proper) :
    (Document.object [(a, x), (b, y)]).Proper := by
  refine .object (by simpa using hne) fun field hfield => ?_
  rcases List.mem_cons.1 hfield with rfl | hfield
  · exact hx
  · cases List.mem_singleton.1 hfield
    exact hy

theorem Proper.listOf {α : Type} {write : α → Document} {l : List α}
    (h : ∀ a ∈ l, (write a).Proper) : (Document.list (l.map write)).Proper := by
  refine .list fun d hd => ?_
  obtain ⟨a, ha, rfl⟩ := List.mem_map.1 hd
  exact h a ha

end Document

open Document (Proper)

theorem Position.proper_toDocument (p : Position) : p.toDocument.Proper := by
  refine .object (by simp) fun field hfield => ?_
  simp only [List.mem_cons, List.not_mem_nil, or_false] at hfield
  rcases hfield with rfl | rfl | rfl
  · exact .text _
  · exact .int _
  · exact .int _

theorem Token.proper_toDocument (t : Token) : t.toDocument.Proper := by
  refine .object (by simp) fun field hfield => ?_
  simp only [List.mem_cons, List.not_mem_nil, or_false] at hfield
  rcases hfield with rfl | rfl | rfl
  · exact .text _
  · exact t.position.proper_toDocument
  · exact .int _

namespace Expr

theorem proper_tagged (type : String) {value : Document} (h : value.Proper) :
    (tagged type value).Proper :=
  .pair (by decide) (.text type) h

theorem proper_alone (type : String) : (Document.object [("type", .text type)]).Proper :=
  .object (by simp) fun field hfield => by
    cases List.mem_singleton.1 hfield
    exact .text type

mutual

theorem proper_toDocument (e : Expr) (h : e.floatsFinite) : e.toDocument.Proper := by
  match e with
  | .int n => exact proper_tagged _ (.int _)
  | .float x => exact proper_tagged _ (.float h)
  | .text s => exact proper_tagged _ (.text s)
  | .bool b => exact proper_tagged _ (.bool b)
  | .null => exact proper_alone _
  | .var name => exact proper_tagged _ (.text name)
  | .system name => exact proper_tagged _ (.text name)
  | .serviceRoot => exact proper_alone _
  | .chain operands operators =>
    have hoperators : (Document.list (operators.map Token.toDocument)).Proper :=
      .listOf fun t _ => t.proper_toDocument
    exact proper_tagged _ (.pair (by decide) (.list (proper_toDocuments operands h)) hoperators)
  | .field root name =>
    exact proper_tagged _ (.pair (by decide) (proper_toDocument root h) (.text name))
  | .index root key =>
    obtain ⟨hroot, hkey⟩ := Bool.and_eq_true_iff.1 h
    exact proper_tagged _
      (.pair (by decide) (proper_toDocument root hroot) (proper_toDocument key hkey))
  | .call root args =>
    obtain ⟨hroot, hargs⟩ := Bool.and_eq_true_iff.1 h
    exact proper_tagged _
      (.pair (by decide) (proper_toDocument root hroot) (.list (proper_toDocuments args hargs)))
  | .not e => exact proper_tagged _ (proper_toDocument e h)
  | .negate e => exact proper_tagged _ (proper_toDocument e h)

theorem proper_toDocuments (es : List Expr) (h : allFinite es) :
    ∀ d ∈ toDocuments es, d.Proper := by
  match es with
  | [] => exact fun d hd => absurd hd List.not_mem_nil
  | e :: rest =>
    obtain ⟨he, hrest⟩ := Bool.and_eq_true_iff.1 h
    exact List.forall_mem_cons.2 ⟨proper_toDocument e he, proper_toDocuments rest hrest⟩

end

end Expr

theorem Action.proper_toFields (a : Action) (h : a.floatsFinite) :
    ∀ field ∈ a.toFields, field.2.Proper := by
  cases a with
  | label name => simp [toFields, Proper.text]
  | branch condition whenTrue whenFalse =>
    have hfalse : ((whenFalse.map Document.text).getD .null).Proper := by
      cases whenFalse with
      | none => exact .null
      | some label => exact .text label
    simp [toFields, Proper.text, condition.proper_toDocument h, hfalse]
  | jump target => simp [toFields, Proper.text]
  | print e => simp [toFields, Proper.text, e.proper_toDocument h]
  | assign target value =>
    obtain ⟨htarget, hvalue⟩ := Bool.and_eq_true_iff.1 h
    simp [toFields, Proper.text, target.proper_toDocument htarget, value.proper_toDocument hvalue]
  | evaluate e => simp [toFields, Proper.text, e.proper_toDocument h]

theorem Statement.proper_toDocument (s : Statement) (h : s.action.floatsFinite) :
    s.toDocument.Proper := by
  refine .object (s.action.nodup_toFields _) fun field hfield => ?_
  rcases List.mem_append.1 hfield with hfield | hfield
  · exact s.action.proper_toFields h field hfield
  · cases List.mem_singleton.1 hfield
    exact s.position.proper_toDocument

namespace Program

theorem proper_toDocument (p : Program) (h : p.floatsFinite) : p.toDocument.Proper := by
  refine .object (by simp) fun field hfield => ?_
  cases List.mem_singleton.1 hfield
  exact .listOf fun s hs => s.proper_toDocument (List.all_eq_true.1 h s hs)

/-- A program whose floats are finite is read back from its document, with the fields in the order in
which they were written, in the order in which they are sent, and in any other. -/
theorem ofDocument?_of_same_fields (p : Program) (h : p.floatsFinite) :
    ofDocument? p.toDocument = some p ∧ ofDocument? p.toDocument.canonical = some p ∧
      ∀ d : Document, d.Proper → d.canonical = p.toDocument.canonical → ofDocument? d = some p := by
  have hsent : ofDocument? p.toDocument.canonical = some p := by
    rw [ofDocument?_canonical, if_pos h]
  have hany (d : Document) (hd : d.Proper) (hsame : d.canonical = p.toDocument.canonical) :
      ofDocument? d = some p := by
    rw [← ofDocument?_sorted hd, hsame, hsent]
  exact ⟨hany _ (p.proper_toDocument h) rfl, hsent, hany⟩

/-- Two statements with an expression of every kind. -/
def sample : Program :=
  let place : Position := ⟨"main", 4294967295, 0⟩
  let call : Expr := .call (.field .serviceRoot "x") [.index (.system "") (.float 1.5), .null]
  ⟨[⟨.branch (.chain [.not (.bool true), .negate (.int (-1))] [⟨"\"", place, 7⟩]) "a" none, place⟩,
    ⟨.assign call (.chain [.text "é\n", .var "not"] []), place⟩]⟩

theorem ofDocument?_sample :
    sample.floatsFinite ∧ ofDocument? sample.toDocument = some sample ∧
      ofDocument? sample.toDocument.canonical = some sample := by
  have hfinite : sample.floatsFinite := by decide +kernel
  obtain ⟨hwritten, hsent, -⟩ := ofDocument?_of_same_fields sample hfinite
  exact ⟨hfinite, hwritten, hsent⟩

end Program

end GotoScript
