import GotoScript.Document.Text
import GotoScript.Program.Basic

/-!
# Programs as documents

A program can be written as a document and read back. A statement is an object with its type, its
fields and its position; an expression has a type and, unless there is nothing more to say, a value.
Documents come from outside, so reading takes any order of fields and passes over unknown ones; an
expression may also be a list of its type and value, and a record a list of its fields.
-/

namespace GotoScript

/-! ## Writing -/

namespace Position

def toDocument (p : Position) : Document :=
  .object [("file", .text p.file), ("line", .int p.line.toNat), ("column", .int p.column.toNat)]

end Position

namespace Token

def toDocument (t : Token) : Document :=
  .object [("text", .text t.text), ("position", t.position.toDocument), ("width", .int t.width.toNat)]

end Token

namespace Expr

def tagged (type : String) (value : Document) : Document :=
  .object [("type", .text type), ("value", value)]

mutual

def toDocument : Expr → Document
  | int n => tagged "int" (.int n.toInt)
  | float x => tagged "float" (.float x)
  | text s => tagged "str" (.text s)
  | bool b => tagged "bool" (.bool b)
  | null => .object [("type", .text "null")]
  | var name => tagged "variable" (.text name)
  | system name => tagged "system_func" (.text name)
  | serviceRoot => .object [("type", .text "service_root")]
  | chain operands operators =>
    tagged "ops_chain" (.object
      [("operands", .list (toDocuments operands)),
        ("operators", .list (operators.map Token.toDocument))])
  | field root name => tagged "field" (.object [("root", toDocument root), ("name", .text name)])
  | index root key => tagged "index" (.object [("root", toDocument root), ("key", toDocument key)])
  | call root args =>
    tagged "invoke" (.object [("root", toDocument root), ("args", .list (toDocuments args))])
  | not e => tagged "not" (toDocument e)
  | negate e => tagged "neg" (toDocument e)

def toDocuments : List Expr → List Document
  | [] => []
  | e :: rest => toDocument e :: toDocuments rest

end

end Expr

namespace Action

/-- The type of a statement and its fields. -/
def toFields : Action → List (String × Document)
  | label name => [("type", .text "label"), ("name", .text name)]
  | branch condition whenTrue whenFalse =>
    [("type", .text "if"), ("condition", condition.toDocument), ("true_label", .text whenTrue),
      ("false_label", (whenFalse.map Document.text).getD .null)]
  | jump target => [("type", .text "goto"), ("label", .text target)]
  | print e => [("type", .text "print"), ("expr", e.toDocument)]
  | assign target value =>
    [("type", .text "assign"), ("target", target.toDocument), ("value", value.toDocument)]
  | evaluate e => [("type", .text "expression"), ("expr", e.toDocument)]

end Action

namespace Statement

def toDocument (s : Statement) : Document :=
  .object (s.action.toFields ++ [("position", s.position.toDocument)])

end Statement

namespace Program

def toDocument (p : Program) : Document :=
  .object [("statements", .list (p.statements.map Statement.toDocument))]

/-- The text of a program's document, one field to a line. -/
def treeText (p : Program) : String :=
  p.toDocument.pretty

end Program

/-! ## Reading -/

/-- The types of expressions. -/
def Expr.types : List String :=
  ["int", "float", "str", "bool", "null", "variable", "system_func", "service_root", "ops_chain",
    "field", "index", "invoke", "not", "neg"]

/-- The types of statements. -/
def Action.types : List String := ["label", "if", "goto", "print", "assign", "expression"]

namespace Document

/-- A type, given by its name or by its place among `types`. -/
def nameOrPlace? (types : List String) : Document → Option String
  | text name => some name
  | int n => if 0 ≤ n then types[n.toNat]? else none
  | _ => none

/-- A type, given by its name or by an object whose only field has that name and says nothing. -/
def nameOrField? : Document → Option String
  | text name => some name
  | object [(name, null)] | object [(name, object [])] => some name
  | _ => none

/-- The type of an expression and its value. As a list, an expression has both. -/
def typeAndValue? (d : Document) : Option (String × Option d.Part) := do
  match ← d.record? [["type"], ["value"]] with
  | [some type, value] =>
    match d, value with
    | list _, none => none
    | list _, _ => return (← type.1.nameOrPlace? Expr.types, value)
    | _, _ => return (← type.1.nameOrField?, value)
  | _ => none

end Document

namespace Position

def ofDocument? (d : Document) : Option Position := do
  match ← d.record? [["file"], ["line"], ["column"]] with
  | [some file, some line, some column] =>
    return ⟨← file.1.text?, ← line.1.uint32?, ← column.1.uint32?⟩
  | _ => none

end Position

namespace Token

def ofDocument? (d : Document) : Option Token := do
  match ← d.record? [["text"], ["position"], ["width"]] with
  | [some text, some position, some width] =>
    return ⟨← text.1.text?, ← Position.ofDocument? position.1, ← width.1.uint64?⟩
  | _ => none

end Token

namespace Expr

/-- A value that says nothing may be missing or null. -/
def unit? {d : Document} (e : Expr) : Option d.Part → Option Expr
  | none => some e
  | some ⟨.null, _⟩ => some e
  | some _ => none

def ofDocument? (d : Document) : Option Expr := do
  match ← d.typeAndValue? with
  | ("null", value) => unit? .null value
  | ("service_root", value) => unit? .serviceRoot value
  | ("int", some v) => v.1.int64?.map .int
  | ("float", some v) => v.1.float?.map .float
  | ("str", some v) => v.1.text?.map .text
  | ("bool", some v) => v.1.bool?.map .bool
  | ("variable", some v) => v.1.text?.map .var
  | ("system_func", some v) => v.1.text?.map .system
  | ("not", some v) => (ofDocument? v.1).map .not
  | ("neg", some v) => (ofDocument? v.1).map .negate
  | ("field", some v) =>
    match ← v.1.record? [["root"], ["name"]] with
    | [some root, some name] => return .field (← ofDocument? root.1) (← name.1.text?)
    | _ => none
  | ("index", some v) =>
    match ← v.1.record? [["root"], ["key"]] with
    | [some root, some key] => return .index (← ofDocument? root.1) (← ofDocument? key.1)
    | _ => none
  | ("invoke", some v) =>
    match ← v.1.record? [["root"], ["args"]] with
    | [some root, some args] =>
      return .call (← ofDocument? root.1) (← (← args.1.items?).mapM fun arg => ofDocument? arg.1)
    | _ => none
  | ("ops_chain", some v) =>
    match ← v.1.record? [["operands"], ["operators"]] with
    | [some operands, some operators] =>
      return .chain (← (← operands.1.items?).mapM fun e => ofDocument? e.1)
        (← operators.1.listOf? Token.ofDocument?)
    | _ => none
  | _ => none
termination_by sizeOf d
decreasing_by
  all_goals grind

end Expr

namespace Action

/-- Reads the type of a statement and its fields. -/
def ofFields? (fields : List (String × Document)) : Option Action := do
  let expr (name : String) := fields.lookup name >>= Expr.ofDocument?
  let text (name : String) := fields.lookup name >>= Document.text?
  match ← fields.lookup "type" >>= Document.nameOrPlace? types with
  | "label" => return .label (← text "name")
  | "if" =>
    return .branch (← expr "condition") (← text "true_label")
      (← Document.optionalText? (fields.lookup "false_label"))
  | "goto" => return .jump (← text "label")
  | "print" => return .print (← expr "expr")
  | "assign" => return .assign (← expr "target") (← expr "value")
  | "expression" => return .evaluate (← expr "expr")
  | _ => none

end Action

namespace Statement

def ofDocument? : Document → Option Statement
  | .object fields => do
    return ⟨← Action.ofFields? fields, ← fields.lookup "position" >>= Position.ofDocument?⟩
  | _ => none

end Statement

namespace Program

def ofDocument? (d : Document) : Option Program := do
  match ← d.record? [["statements"]] with
  | [some statements] => return ⟨← statements.1.listOf? Statement.ofDocument?⟩
  | _ => none

end Program

end GotoScript
