import GotoScript.Command
import Std.Time.DateTime.Timestamp

/-!
# The program

Reads the source file, and carries a run out in the world one statement at a time: waits for its
pauses, writes what it prints, and lets it see the clock.
-/

namespace GotoScript.Main

/-- The seconds since the beginning of 1970. -/
def secondsNow : IO Float := do
  let now ← Std.Time.Timestamp.now
  return Float.ofInt now.toNanosecondsSinceUnixEpoch.val / 1000000000.0

def readSource (file : String) : IO (Except Command.ReadFailure String) := do
  try
    let bytes ← IO.FS.readBinFile file
    match String.fromUTF8? bytes with
    | some text => return .ok text
    | none => return .error .notText
  catch
    | .noFileOrDirectory .. => return .error .notFound
    | .inappropriateType .. => return .error .isDirectory
    | e => return .error (.other (toString e))

/-- Sleeps, a day at a time where it has to be long. -/
partial def sleep (milliseconds : Nat) : IO Unit := do
  if milliseconds > 86400000 then
    IO.sleep 86400000
    sleep (milliseconds - 86400000)
  else IO.sleep milliseconds.toUInt32

/-- Acts out what has happened since the last time: warnings, pauses, and what was printed. -/
def carryOut (m : Machine) : IO Machine := do
  for e in m.events.reverse do
    match e with
    | .labelReplaced .. => IO.eprintln (e.line?.getD "")
    | .paused milliseconds => sleep milliseconds
    | _ => pure ()
  let out ← IO.getStdout
  unless m.console.writer.taken.isEmpty do
    out.putStr m.console.writer.text
    out.flush
  return { m with events := [], console := { writer := .unlimited } }

partial def run (code : Code) (m : Machine) : IO (Except Failure Unit) := do
  let m ← carryOut m
  match m.step { registry := .builtin, clock := ← secondsNow } code with
  | .finished => return .ok ()
  | .running m => run code m
  | .failed failure m =>
    let _ ← carryOut m
    return .error (.run failure)

/-- Reports a failure, with what is wrong with the program's text where that is the reason. -/
def fail (f : Failure) : IO UInt32 := do
  match f with
  | .compile e => IO.eprintln (CompileError.diagnosticCode ++ "\n\n  " ++ e.text ++ "\n")
  | _ => pure ()
  IO.eprintln (Command.failureReport f)
  return 1

def perform (c : Command) (source : String) : IO UInt32 := do
  match c.task with
  | .run =>
    match compile .builtin (Command.request c.file source) with
    | .error f => fail f
    | .ok p =>
      let (code, machine) := Machine.start p { writer := .unlimited }
      match ← run code machine with
      | .ok _ => return 0
      | .error f => fail f
  | task =>
    match Command.showing c.file source task with
    | .error f => fail f
    | .ok text =>
      IO.print text
      return 0

end GotoScript.Main

def main (args : List String) : IO UInt32 := do
  match GotoScript.Command.ofArgs args with
  | .error .help =>
    IO.print GotoScript.Command.usageText
    return 0
  | .error .invalid =>
    IO.eprint GotoScript.Command.usageText
    return 2
  | .ok c =>
    match ← GotoScript.Main.readSource c.file with
    | .error failure =>
      IO.eprintln (GotoScript.Command.readReport c.file failure)
      return 1
    | .ok source => GotoScript.Main.perform c source
