/-!
# Documents

Documents are what structured requests and replies carry: the values of JSON, with integers and
floats told apart. The fields of an object stand in the order in which they were written; `canonical`
is the form in which a document is sent, with fields in the order of their names.
-/

namespace GotoScript

inductive Document where
  | null
  | bool (value : Bool)
  | int (value : Int)
  | float (value : Float)
  | text (value : String)
  | list (items : List Document)
  | object (fields : List (String × Document))

namespace Document

/-! ## The form in which documents are sent -/

/-- Puts a field in its place among fields that are in order. -/
def insertField (name : String) (value : Document) :
    List (String × Document) → List (String × Document)
  | [] => [(name, value)]
  | (n, v) :: rest =>
    if name < n then (name, value) :: (n, v) :: rest else (n, v) :: insertField name value rest

mutual

/-- The same document with the fields of all its objects in the order of their names, and null for
every float that is infinite or not a number. -/
def canonical : Document → Document
  | float x => if x.isFinite then float x else null
  | list items => list (canonicalItems items)
  | object fields => object (canonicalFields fields)
  | d => d

def canonicalItems : List Document → List Document
  | [] => []
  | d :: rest => canonical d :: canonicalItems rest

def canonicalFields : List (String × Document) → List (String × Document)
  | [] => []
  | (name, d) :: rest => insertField name (canonical d) (canonicalFields rest)

end

/-! ## Reading simple values -/

def text? : Document → Option String
  | text s => some s
  | _ => none

def bool? : Document → Option Bool
  | bool b => some b
  | _ => none

/-- An integer from `low` up to, and not including, `high`. -/
def intWithin? (low high : Int) : Document → Option Int
  | int n => if low ≤ n ∧ n < high then some n else none
  | _ => none

def int64? (d : Document) : Option Int64 :=
  (d.intWithin? (-Nat.pow 2 63) (Nat.pow 2 63)).map Int64.ofInt

def uint32? (d : Document) : Option UInt32 :=
  (d.intWithin? 0 UInt32.size).map fun n => UInt32.ofNat n.toNat

def uint64? (d : Document) : Option UInt64 :=
  (d.intWithin? 0 UInt64.size).map fun n => UInt64.ofNat n.toNat

/-- Any number reads as a float. -/
def float? : Document → Option Float
  | int n => some (Float.ofInt n)
  | float x => some x
  | _ => none

/-- A text that may be missing or null. -/
def optionalText? : Option Document → Option (Option String)
  | none | some null => some none
  | some d => d.text?.map some

/-- A truth value that may be missing, and is then false. -/
def flag? : Option Document → Option Bool
  | none => some false
  | some d => d.bool?

/-- Reads every item of a list. -/
def listOf? {α : Type} (read : Document → Option α) : Document → Option (List α)
  | list items => items.mapM read
  | _ => none

/-! ## Reading parts -/

/-- A document inside another one, which is therefore smaller. -/
abbrev Part (d : Document) : Type :=
  { part : Document // sizeOf part < sizeOf d }

theorem sizeOf_lt_of_mem_list {d : Document} {items : List Document} (h : d ∈ items) :
    sizeOf d < sizeOf (list items) := by
  have := List.sizeOf_lt_of_mem h
  simp only [list.sizeOf_spec]
  omega

theorem sizeOf_lt_of_mem_object {field : String × Document} {fields : List (String × Document)}
    (h : field ∈ fields) : sizeOf field.2 < sizeOf (object fields) := by
  have := List.sizeOf_lt_of_mem h
  obtain ⟨name, d⟩ := field
  simp only [object.sizeOf_spec, Prod.mk.sizeOf_spec] at *
  omega

/-- The items of a list. -/
def items? : (d : Document) → Option (List d.Part)
  | list items => some (items.attach.map fun ⟨d, h⟩ => ⟨d, sizeOf_lt_of_mem_list h⟩)
  | _ => none

/-- Every value that an object has under one of `names`. -/
def named (fields : List (String × Document)) (names : List String) : List (object fields).Part :=
  fields.attach.filterMap fun ⟨field, h⟩ =>
    if field.1 ∈ names then some ⟨field.2, sizeOf_lt_of_mem_object h⟩ else none

/-- The one value under `names`: absent when there is none, a failure when there are several. -/
def one? {α : Type} : List α → Option (Option α)
  | [] => some none
  | [a] => some (some a)
  | _ => none

/-- The values of a record with the given fields, each field known by one or more names. A record is
an object, whose other fields are passed over, or a list of the values in order, which may end
early. -/
def record? (d : Document) (fields : List (List String)) : Option (List (Option d.Part)) :=
  match d with
  | object given => fields.mapM fun names => one? (named given names)
  | list items =>
    if items.length ≤ fields.length then
      some (((items.attach.map fun ⟨d, h⟩ => some ⟨d, sizeOf_lt_of_mem_list h⟩) ++
        List.replicate (fields.length - items.length) none))
    else none
  | _ => none

end Document

end GotoScript
