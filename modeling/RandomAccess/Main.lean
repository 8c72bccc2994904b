import RandomAccess.Session

/-! The command line program. -/

open RandomAccess

/-- The files that a command line names, as far as they exist. -/
def readNamed (argv : List String) : IO Files := do
  match CommandLine.Arguments.parse argv with
  | .error _ => return {}
  | .ok a =>
    let names := a.path :: a.input.toList ++ a.tapes
    let contents ← names.mapM fun (name : String) => do
      try return [(name, ← IO.FS.readBinFile name)] catch _ => return []
    let folders ← (a.output.toList.map Files.folder).mapM fun (folder : String) => do
      try
        let _ ← IO.FS.Handle.mk folder .read
        return [folder]
      catch _ => return []
    return { contents := contents.flatten, folders := folders.flatten }

def main (argv : List String) : IO UInt32 := do
  let s := Session.run Machine.ampleFuel (← readNamed argv) argv
  match s.written with
  | some (name, content) => IO.FS.writeFile name content
  | none => pure ()
  IO.print s.printed
  IO.eprint s.errors
  match s.ending with
  | .exit code => return UInt32.ofNat code
  | .broken e => do
    IO.eprintln e.message
    return 1
  | .outOfFuel => return 1
