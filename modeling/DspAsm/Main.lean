import DspAsm.CommandLine.Arguments

namespace DspAsm.CommandLine

def fileFault : IO.Error → FileFault
  | .noFileOrDirectory .. => .missing
  | error => .other (toString error)

def readFiles (paths : List String) : IO Files := do
  let contents ← paths.mapM fun (path : String) => do
    match ← (IO.FS.readBinFile path).toBaseIO with
    | .ok content => return (path, Except.ok content)
    | .error error => return (path, Except.error (fileFault error))
  return { read := fun path => (contents.lookup path).getD (.error .missing), refusal := fun _ => none }

/-- Prints the outcome of an invocation and writes its file. If the file cannot be written, the outcome is the
one for a system that refuses it. -/
def carryOut (files : Files) (invocation : Invocation) : IO UInt32 := do
  let outcome := run Layout.ofText? files invocation
  let outcome ← match outcome.written with
    | none => pure outcome
    | some (path, content) =>
      match ← (IO.FS.writeBinFile path content).toBaseIO with
      | .ok () => pure outcome
      | .error error => pure (run Layout.ofText? { files with refusal := fun _ => some (fileFault error) } invocation)
  IO.print outcome.stdout
  IO.eprint outcome.stderr
  return outcome.exitCode.toUInt32

end DspAsm.CommandLine

open DspAsm.CommandLine in
def main (arguments : List String) : IO UInt32 := do
  match Invocation.ofArguments? arguments with
  | none =>
    IO.eprint usage
    return 2
  | some invocation => carryOut (← readFiles invocation.inputs) invocation
