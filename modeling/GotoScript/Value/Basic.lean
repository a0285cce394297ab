import GotoScript.Number.Decimal
import GotoScript.Service.Registry

/-!
# Values

What expressions evaluate to, with the text that printing shows. Functions, the service root and
service handles are values too, but never equal to anything.
-/

namespace GotoScript

/-- The functions that are part of the language. -/
inductive NativeFunction where
  /-- The seconds since the beginning of 1970. -/
  | currentTime
  /-- Waits for a number of seconds. -/
  | pause
  /-- Sends a text to one service. -/
  | sendString (client : Client)

inductive Value where
  | int (value : Int64)
  | float (value : Float)
  | text (value : String)
  | bool (value : Bool)
  | null
  | function (value : NativeFunction)
  | serviceRoot
  | service (client : Client)

/-- The type of a value. -/
inductive TypeTag where
  | int
  | float
  | string
  | bool
  | null
  | nativeFunction
  | serviceRoot
  | serviceHandle
deriving DecidableEq, Repr

def TypeTag.text : TypeTag → String
  | int => "int"
  | float => "float"
  | string => "string"
  | bool => "bool"
  | null => "null"
  | nativeFunction => "nativeFunction"
  | serviceRoot => "serviceRoot"
  | serviceHandle => "serviceHandle"

namespace NativeFunction

/-- The function that is written with a dollar sign and this name. -/
def ofSystemName? (name : String) : Option NativeFunction :=
  if name = "currentTime" then some .currentTime
  else if name = "pause" then some .pause
  else none

def name : NativeFunction → String
  | currentTime => "currentTime"
  | pause => "pause"
  | sendString _ => "sendString"

def parameters : NativeFunction → List TypeTag
  | currentTime => []
  | pause => [.float]
  | sendString _ => [.string]

def arity (f : NativeFunction) : Nat :=
  f.parameters.length

def text (f : NativeFunction) : String :=
  "<native fn " ++ f.name ++ ">"

end NativeFunction

namespace Value

def tag : Value → TypeTag
  | int _ => .int
  | float _ => .float
  | text _ => .string
  | bool _ => .bool
  | null => .null
  | function _ => .nativeFunction
  | serviceRoot => .serviceRoot
  | service _ => .serviceHandle

/-- A number as a float, the nearest one where an integer has none of its own. -/
def number? : Value → Option Float
  | int n => some (Float.ofInt n.toInt)
  | float x => some x
  | _ => none

/-- What `==` asks: integers and floats compare as numbers, other values by type and content. -/
def equals : Value → Value → Bool
  | int a, int b => a = b
  | int a, float b => Float.ofInt a.toInt == b
  | float a, int b => a == Float.ofInt b.toInt
  | float a, float b => a == b
  | text a, text b => a = b
  | bool a, bool b => a = b
  | null, null => true
  | _, _ => false

/-- Floats are shown without an exponent and, when whole, without a fraction. Of two equally near
decimals the upper one is shown. -/
def floatLayout : Number.Layout where
  positional _ := true
  keepsFraction := false
  signedExponent := false
  tie := .up

def shown : Value → String
  | int n => toString n.toInt
  | float x => floatLayout.text x
  | text s => s
  | bool b => if b then "true" else "false"
  | null => "null"
  | function f => f.text
  | serviceRoot => "<service root>"
  | service client => "<service " ++ client.name ++ ">"

end Value

/-- What a native function hands back. -/
inductive NativeResult where
  | number (value : Float)
  | bool (value : Bool)
  | text (value : String)
  | nothing

/-- A whole number of less than 63 bits becomes an integer, any other number stays a float. -/
def NativeResult.toValue : NativeResult → Value
  | number x =>
    match (Number.Binary.ofFloat? x).bind Number.Binary.whole? with
    | some n => if n.natAbs < Nat.pow 2 63 then .int (Int64.ofInt n) else .float x
    | none => .float x
  | bool b => .bool b
  | text s => .text s
  | nothing => .null

end GotoScript
