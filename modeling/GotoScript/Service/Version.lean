import GotoScript.Number.Digits

/-!
# Versions

A version is a text of components separated by dots. A component counts as the number that its
leading digits write, or as zero when there are none or the number has no place in 64 bits. Versions
compare component by component, missing ones counting as zero.
-/

namespace GotoScript.Version

/-- The pieces of a text between the separators. -/
def pieces (separator : Char) : List Char → List (List Char)
  | [] => [[]]
  | c :: cs =>
    if c = separator then [] :: pieces separator cs
    else
      match pieces separator cs with
      | [] => [[c]]
      | piece :: rest => (c :: piece) :: rest

def component (piece : List Char) : Nat :=
  let n := Number.natOfDigits (piece.takeWhile Char.isDigit)
  if n < UInt64.size then n else 0

def components (version : String) : List Nat :=
  (pieces '.' version.toList).map component

def dropTrailingZeros (l : List Nat) : List Nat :=
  (l.reverse.dropWhile (· = 0)).reverse

/-- The components up to the last that is not zero. -/
def significant (version : String) : List Nat :=
  dropTrailingZeros (components version)

/-- Compares from the left; the shorter list goes on with zeros. -/
def comparePadded : List Nat → List Nat → Ordering
  | [], bs => if bs.all (· = 0) then .eq else .lt
  | a :: as, bs => (Ord.compare a (bs.headD 0)).then (comparePadded as bs.tail)

/-- The order of two versions. When all components agree, the longer list of them is the greater. -/
def compare (a b : String) : Ordering :=
  if a = b then .eq
  else
    let x := significant a
    let y := significant b
    (comparePadded x y).then (Ord.compare x.length y.length)

end GotoScript.Version
