import RestPlugin.Command.Run

/-!
# The program

The command line on the real disk.
-/

namespace RestPlugin

open Files

/-- What went wrong in a file operation. -/
def faultOf : IO.Error → Fault
  | .noFileOrDirectory _ _ _ => .notFound
  | error => .other (toString error)

/-- Runs a file operation and keeps its failure as a value. -/
def attemptIO {α : Type} (operation : IO α) : IO (Except Fault α) := do
  try
    return .ok (← operation)
  catch error =>
    return .error (faultOf error)

/-- The operations of the real disk. -/
def realDisk : System IO where
  ensureDirectory path := attemptIO do
    if path != "" then IO.FS.createDirAll path
  write path content := attemptIO do
    match Path.parent path with
    | some parent => if parent != "" then IO.FS.createDirAll parent
    | none => pure ()
    IO.FS.writeFile path content
  read path := do
    match ← attemptIO (IO.FS.readFile path) with
    | .ok content => return .ok (some content)
    | .error .notFound => return .ok none
    | .error fault => return .error fault
  isFile path := do
    match ← attemptIO (IO.FS.readBinFile path) with
    | .ok _ => return true
    | .error _ => return false
  formatPhp _ content := return .ok content
  formatTypeScript _ content := return .ok content

end RestPlugin

/-- The entry point. -/
def main (arguments : List String) : IO UInt32 := do
  let outcome ← RestPlugin.Command.run RestPlugin.realDisk arguments
  for line in outcome.errors do
    IO.eprintln line
  for line in outcome.output do
    IO.println line
  return outcome.exit.toUInt32
