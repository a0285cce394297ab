import GotoScript.Bindings
import GotoScript.Error.Runtime
import GotoScript.Program.Basic
import GotoScript.Run.Event

/-!
# Labels

Where the labels of a program lead. A label that is given twice leads to its last place.
-/

namespace GotoScript

structure LabelIndex where
  targets : Bindings Nat := {}

namespace LabelIndex

/-- The index after the statements from `index` on, and an event for every label that was known
before. -/
def extend (labels : LabelIndex) (index : Nat) : List Statement → LabelIndex × List Event
  | [] => (labels, [])
  | s :: rest =>
    match s.labelName? with
    | none => extend labels (index + 1) rest
    | some name =>
      let (final, events) := extend ⟨labels.targets.set name index⟩ (index + 1) rest
      match labels.targets.find? name with
      | none => (final, events)
      | some previous => (final, .labelReplaced name previous index s.position :: events)

/-- The labels of a program. -/
def ofProgram (p : Program) : LabelIndex × List Event :=
  extend {} 0 p.statements

/-- The number of the statement that a label leads to. -/
def resolve (labels : LabelIndex) (name : String) : Except RuntimeError Nat :=
  match labels.targets.find? name with
  | some index => .ok index
  | none => .error (.labelNotFound name)

def size (labels : LabelIndex) : Nat :=
  labels.targets.size

def isEmpty (labels : LabelIndex) : Bool :=
  labels.targets.isEmpty

end LabelIndex

end GotoScript
