import GotoScript.Token.Basic

/-!
# Events

What happens while programs are read and run, in the order in which it happens. Most events have a
line in the log. A pause has none, but the events of a run tell how long it paused altogether.
-/

namespace GotoScript

inductive Event where
  | tokenized (file : String) (count : Nat)
  | parsed (file : String) (statements : Nat)
  /-- The label of the statement `index` was given before by the statement `previous`. -/
  | labelReplaced (label : String) (previous index : Nat) (position : Position)
  | started (statements labels : Nat)
  | executing (index : Nat) (position : Position)
  | called (function : String) (args : Nat)
  | requested (service request : String)
  | paused (milliseconds : Nat)
deriving DecidableEq, Repr

namespace Event

/-- The line that the log has for the event. -/
def line? : Event → Option String
  | tokenized file count => some ("TRACE tokenized file=" ++ file ++ " count=" ++ toString count)
  | parsed file statements =>
    some ("DEBUG parsed program file=" ++ file ++ " statements=" ++ toString statements)
  | labelReplaced label previous index position =>
    some ("WARN duplicate label overrides earlier definition label=" ++ label ++ " previous=" ++
      toString previous ++ " index=" ++ toString index ++ " position=" ++ position.text)
  | started statements labels =>
    some ("DEBUG running program statements=" ++ toString statements ++ " labels=" ++
      toString labels)
  | executing index position =>
    some ("TRACE execute pc=" ++ toString index ++ " position=" ++ position.text)
  | called function args =>
    some ("TRACE native call function=" ++ function ++ " args=" ++ toString args)
  | requested service _ => some ("TRACE string request service=" ++ service)
  | paused _ => none

def pause : Event → Nat
  | paused milliseconds => milliseconds
  | _ => 0

/-- The milliseconds of all pauses. -/
def pauses (events : List Event) : Nat :=
  events.foldl (fun total event => total + event.pause) 0

end Event

end GotoScript
