/-!
# Where printed lines go

A writer takes texts one at a time and may refuse any of them. A console prints lines on a writer: the
text of the line first, then a line feed. It can keep the lines that were printed to the end.
-/

namespace GotoScript

structure Writer where
  /-- Whether a text is taken, given the number of texts offered before and of bytes held. -/
  admits : Nat → Nat → String → Bool
  offered : Nat := 0
  bytes : Nat := 0
  /-- The texts that were taken, the latest first. -/
  taken : List String := []

namespace Writer

def unlimited : Writer where
  admits _ _ _ := true

/-- A writer with room for so many bytes. A text that does not fit is refused as a whole. -/
def limited (bytes : Nat) : Writer where
  admits _ held text := held + text.utf8ByteSize ≤ bytes

/-- Offers a text, and says whether it was taken. -/
def write (w : Writer) (text : String) : Bool × Writer :=
  if w.admits w.offered w.bytes text then
    (true, ⟨w.admits, w.offered + 1, w.bytes + text.utf8ByteSize, text :: w.taken⟩)
  else (false, { w with offered := w.offered + 1 })

/-- All that was taken. -/
def text (w : Writer) : String :=
  String.join w.taken.reverse

end Writer

structure Console where
  writer : Writer
  /-- The lines printed so far, the latest first, where they are kept. -/
  kept : Option (List String) := none

namespace Console

/-- A console that keeps what it prints. -/
def keeping (writer : Writer) : Console :=
  ⟨writer, some []⟩

/-- Why nothing more can be printed. -/
def full : String := "buffer full"

/-- Prints a line, and says whether all of it was taken. An empty text is not offered. -/
def print (c : Console) (text : String) : Bool × Console :=
  let (taken, writer) := if text.isEmpty then (true, c.writer) else c.writer.write text
  if taken then
    let (ended, writer) := writer.write "\n"
    if ended then (true, ⟨writer, c.kept.map (text :: ·)⟩) else (false, { c with writer })
  else (false, { c with writer })

/-- The lines that were kept, in the order in which they were printed. -/
def lines (c : Console) : List String :=
  (c.kept.getD []).reverse

end Console

end GotoScript
