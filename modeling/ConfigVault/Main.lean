import ConfigVault.Cli.Run
import Std.Time.Format

/-!
# The program

Shows the world to a run and does what comes of it.  Files are read before the run begins: first
those that the arguments name, then those that they lead to.
-/

open ConfigVault ConfigVault.Cli

namespace ConfigVault.Cli

/-- Why the system does not read a file. -/
def faultOf : IO.Error → FileFault
  | .noFileOrDirectory .. => .missing
  | .inappropriateType _ 20 _ => .notDirectory
  | .inappropriateType _ 21 _ => .isDirectory
  | e => .other (toString e)

/-- Reads a file of the system. -/
def readSystemFile (path : String) : IO (Except FileFault (List UInt8)) := do
  if path.toList.contains '\x00' then return .error .nullInPath
  try
    return .ok (← IO.FS.readBinFile path).toList
  catch e =>
    return .error (faultOf e)

/-- The disk on which these files are known. -/
def diskOf (files : List (String × Except FileFault (List UInt8))) : Disk :=
  ⟨fun path => (files.lookup path).getD (.error .missing)⟩

/-- The environment. -/
def readEnvironment : IO (String → Option String) := do
  let values ← environmentNames.mapM fun name => do pure (name, ← IO.getEnv name)
  return fun name => (values.lookup name).join

/-- The world, with all the files that the command reads. -/
def readWorld (env : String → Option String) (command : Option Command) : IO World := do
  let stdin ←
    if command.any Command.readsStdin then (← IO.getStdin).readBinToEnd else pure .empty
  let blank : World := ⟨diskOf [], stdin.toList, env⟩
  let first := (command.map (Command.files blank)).getD []
  let read (paths : List String) := paths.mapM fun path => do pure (path, ← readSystemFile path)
  let named : World := { blank with disk := diskOf (← read first) }
  let all := (command.map (Command.files named)).getD []
  return { blank with disk := diskOf (← read all) }

/-- The time of the log. -/
def now : IO String := do
  let time ← Std.Time.Timestamp.now
  return (Std.Time.DateTime.ofTimestamp time .UTC).format "uuuu-MM-dd'T'HH:mm:ss.SSSSSS'Z'"

end ConfigVault.Cli

/-- Runs the program. -/
def main (args : List String) : IO UInt32 := do
  let env ← readEnvironment
  let world ← readWorld env (command? env args)
  let outcome := run world args
  IO.print outcome.stdout
  IO.eprint (outcome.stderr (← now))
  return UInt32.ofNat outcome.exitCode
