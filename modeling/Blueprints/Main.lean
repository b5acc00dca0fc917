import Std.Time.DateTime.Timestamp
import Blueprints.Cli.Run

/-! # The program

    The real disk and clock as the host of commands. -/

namespace Blueprints.Cli

/-- Why the real disk refused to do something. -/
def diskError (e : IO.Error) : DiskError :=
  match e with
  | .noFileOrDirectory .. => .notFound
  | .alreadyExists .. => .alreadyExists
  | .inappropriateType _ code _ => if code == 21 then .isDirectory else .notDirectory
  | e => .other (toString e)

/-- Does something on the real disk. -/
def onRealDisk {α : Type} (act : IO α) : IO (Except DiskError α) := do
  try return .ok (← act)
  catch e => return .error (diskError e)

/-- Commands on the real disk, started at a time of the steady clock. -/
abbrev Real := ReaderT Nat IO

instance : Host Real where
  readText path := onRealDisk (IO.FS.readFile path)
  writeText path text := onRealDisk (IO.FS.writeFile path text)
  makeFolders path := onRealDisk (IO.FS.createDirAll path)
  list path := onRealDisk do
    return (← ((← IO.currentDir) / path).readDir).toList.map (·.fileName)
  holds path := do ((← IO.currentDir) / path).pathExists
  now := do
    let t ← Std.Time.Timestamp.now
    return ⟨t.val.second.val, t.val.nano.val.toNat⟩
  elapsed := do
    return (← IO.monoNanosNow) - (← read)

end Blueprints.Cli

open Blueprints.Cli in
/-- Runs the command line. -/
def main (args : List String) : IO UInt32 := do
  let outcome ← ((runArguments args : Real Outcome).run (← IO.monoNanosNow))
  (← IO.getStdout).putStr outcome.transcript.out
  (← IO.getStderr).putStr outcome.transcript.err
  return outcome.exit.toUInt32
