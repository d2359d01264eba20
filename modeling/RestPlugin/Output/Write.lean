import RestPlugin.Files.System
import RestPlugin.Output.File
import RestPlugin.Report.Entry

/-!
# Writing generated files

Files are written below a base directory through a file system.  The directory of a file is made
first, source files pass a formatting hook, and the first failure ends the whole batch.
-/

namespace RestPlugin.Output

open Files Report

/-- Why files could not be written. -/
inductive WriteError where
  | createDirectory (path : String) (fault : Fault)
  | format (fault : Fault)
  | write (path : String) (fault : Fault)
deriving DecidableEq, Repr, Inhabited

/-- The messages of an error, from the outermost to the innermost. -/
def WriteError.chain : WriteError → List String
  | createDirectory path fault => [s!"failed to create {path}", fault.message]
  | format fault => [fault.message]
  | write path fault => [s!"failed to write {path}", fault.message]

/-- The opening of a PHP source file. -/
def phpOpening : String := "<?php\n"

/-- The text with a header, after the opening of a PHP source file or at the top. -/
def withHeader (content : String) : Option String → String
  | none => content
  | some header =>
      if Text.startsWith content phpOpening then
        phpOpening ++ header ++ "\n" ++
          String.ofList (content.toList.drop phpOpening.toList.length)
      else header ++ "\n" ++ content

/-- Whether a file was written or left alone. -/
inductive Outcome where
  | written
  | skipped
deriving DecidableEq, Repr, Inhabited

/-- The paths of the files of a batch that were written and of those that were left alone. -/
structure Summary where
  written : List String := []
  skipped : List String := []
deriving DecidableEq, Repr, Inhabited

/-- Adds the outcome of a file. -/
def Summary.add (summary : Summary) (path : String) : Outcome → Summary
  | .written => { summary with written := summary.written ++ [path] }
  | .skipped => { summary with skipped := summary.skipped ++ [path] }

/-- The message for the outcome of a file. -/
def Outcome.message : Outcome → String
  | written => "Wrote generated file."
  | skipped => "Skipped existing file."

/-- The message at the end of a batch. -/
def Summary.entry (scope : String) (summary : Summary) : Entry where
  level := .info
  scope := scope
  message := "Wrote " ++ toString summary.written.length ++ " generated file(s)."
  context := some (.obj [("written", .nat summary.written.length),
    ("skipped", .nat summary.skipped.length)])

variable {m : Type → Type} [Monad m]

/-- Makes the directory of a target. -/
def ensureParent (system : System m) (target : String) : m (Except WriteError Unit) :=
  match Path.parent target with
  | none => pure (.ok ())
  | some parent => do
      match ← system.ensureDirectory parent with
      | .ok () => return .ok ()
      | .error fault => return .error (.createDirectory parent fault)

/-- The text of a file after its formatting hook. -/
def formatted (system : System m) (file : File) (target : String) :
    m (Except WriteError String) := do
  let content := withHeader file.content file.header
  let result ← match file.extension with
    | some "php" => system.formatPhp target content
    | some "ts" | some "tsx" => system.formatTypeScript target content
    | _ => pure (.ok content)
  return result.mapError .format

/-- Writes a text to its target, or leaves an existing file alone if the file asks for that. -/
def store (system : System m) (file : File) (target content : String) :
    m (Except WriteError Outcome) := do
  let keep ← match file.overwrite with
    | .always => pure false
    | .ifMissing => system.isFile target
  if keep then return .ok .skipped
  else
    match ← system.write target content with
    | .ok () => return .ok .written
    | .error fault => return .error (.write target fault)

/-- Writes one file. -/
def writeOne (system : System m) (base : String) (file : File) :
    m (Except WriteError Outcome) := do
  let target := Path.join base file.path
  match ← ensureParent system target with
  | .error error => return .error error
  | .ok () =>
      match ← formatted system file target with
      | .error error => return .error error
      | .ok content => store system file target content

/-- Writes files in order after those of `summary`, and collects what is reported. -/
def writeRest (system : System m) (scope base : String) :
    Summary → List File → m (Except WriteError Summary × List Entry)
  | summary, [] => return (.ok summary, [summary.entry scope])
  | summary, file :: rest => do
      match ← writeOne system base file with
      | .error error => return (.error error, [])
      | .ok outcome => do
          let entry : Entry :=
            { level := .debug
              scope := scope
              message := outcome.message
              context := some (.obj [("path", .str file.path)]) }
          let (result, entries) ← writeRest system scope base (summary.add file.path outcome) rest
          return (result, entry :: entries)

/-- Writes files below a base directory. -/
def writeAll (system : System m) (scope base : String) (files : List File) :
    m (Except WriteError Summary × List Entry) :=
  writeRest system scope base {} files

end RestPlugin.Output
