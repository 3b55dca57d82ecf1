import ExprCheck.Console.Run
import Std.Time.DateTime.Timestamp

/-!
The program: it reads what the command line names, measures how long the work
took, and prints the answer.
-/

namespace ExprCheck.Console

def faultOf : IO.Error → ReadFault
  | .noFileOrDirectory .. => .notFound
  | .inappropriateType _ code _ => if code = 21 then .isDirectory else .notDirectory
  | e => .other (toString e)

def readText (path : String) : IO (Except ReadFault (List Char)) := do
  try
    match String.fromUTF8? (← IO.FS.readBinFile path) with
    | some text => return .ok text.toList
    | none => return .error .notText
  catch e => return .error (faultOf e)

/-- The first line of the standard input, with its end. -/
def readLine : IO (Except ReadFault (List Char)) := do
  try
    return .ok (← (← IO.getStdin).getLine).toList
  catch _ => return .error .notText

def readEnvironment : IO Environment := do
  let pairs ← (filterVariable :: Environment.names).mapM fun name => do
    return (name, ← IO.getEnv name)
  return fun name => (pairs.lookup name).join

/-- Reads the files that a command line names. -/
def readSurroundings (args : List String) : IO Surroundings := do
  let paths := match parse args with
    | .ok i => i.config.toList ++ i.file.toList
    | .error _ => []
  let files ← paths.mapM fun path => do return (path, ← readText path)
  return {
    environment := ← readEnvironment
    file := fun path => (files.lookup path).getD (.error .notFound) }

def write : Output → IO Unit
  | .out text => do
    let stream ← IO.getStdout
    stream.putStr text
    stream.flush
  | .err text => do (← IO.getStderr).putStr text

/-- The moment when something is done that began at a reading of the clock. -/
def momentSince (began : Nat) : IO Moment := do
  let elapsed := (← IO.monoNanosNow) - began
  return {
    nanos := (← Std.Time.Timestamp.now).toNanosecondsSinceUnixEpoch.val
    elapsed := ⟨elapsed⟩ }

def conclude (began : Nat) (a : Answer) : IO UInt32 := do
  (a.outputs (← momentSince began)).forM write
  return a.status.toUInt32

end ExprCheck.Console

open ExprCheck.Console in
def main (args : List String) : IO UInt32 := do
  let surroundings ← readSurroundings args
  let began ← IO.monoNanosNow
  match start args surroundings with
  | .answered a => conclude began a
  | .asking before reply =>
    (before (← momentSince began)).forM write
    let line ← readLine
    conclude (← IO.monoNanosNow) (reply line)
