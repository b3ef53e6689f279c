import SceneLock.Command.Arguments
import Std.Time.DateTime.Timestamp

/-!
The program: runs the command that its arguments describe, on the files of this machine.
-/

namespace SceneLock

/-- Whether an action goes through. -/
def succeeds {α : Type} (action : IO α) : IO Bool := do
  try
    discard action
    return true
  catch _ => return false

instance : Host IO where
  readText? path := do
    try return some (← IO.FS.readFile path)
    catch _ => return none
  isOccupied path := succeeds (IO.FS.Handle.mk path .read)
  makeDirectory path := succeeds (IO.FS.createDirAll path)
  append path text := succeeds (IO.FS.withFile path .append fun file => file.putStr text)
  now := do
    let nanos := (← Std.Time.Timestamp.now).toNanosecondsSinceUnixEpoch.val
    return ⟨nanos / 1000000000, (nanos % 1000000000).toNat⟩
  wait milliseconds := IO.sleep (.ofNat (min milliseconds 4294967295))

def usage : String :=
  String.join (List.map (· ++ "\n") [
    "Usage: scenelock [-v]... COMMAND",
    "",
    "tree -g GRAPH ROOT        show what a lock on the subtree of ROOT covers",
    "replay -g GRAPH -s SCRIPT [-c CONFIG] [--events FILE] [--fail-fast]",
    "                          run a script of lock steps",
    "config [-c CONFIG]        show the settings in effect"])

def hostName : IO String := do
  return (← Host.readText? "/proc/sys/kernel/hostname").elim "unknown" fun name =>
    String.ofList (name.toList.takeWhile (· ≠ '\n'))

def runInvocation (invocation : Arguments.Invocation) : IO UInt32 := do
  let owner := Command.localOwner (← IO.getEnv "USER") (← IO.getEnv "USERNAME") (← hostName)
  let report ← invocation.command.run owner
  IO.print report.output
  for complaint in report.complaints invocation.verbosity do
    IO.eprintln complaint
  return .ofNat report.exitCode

end SceneLock

open SceneLock in
def main (arguments : List String) : IO UInt32 := do
  match Arguments.read arguments with
  | .ok invocation => runInvocation invocation
  | .error .help => do
    IO.print usage
    return 0
  | .error .version => do
    IO.println "scenelock 0.1.0"
    return 0
  | .error .usage => do
    IO.eprint usage
    return 2
