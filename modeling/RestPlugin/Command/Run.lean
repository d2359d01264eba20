import RestPlugin.Command.Arguments
import RestPlugin.Command.Generate
import RestPlugin.Text.Lines

/-!
# Commands

Carrying out a command line on a file system: what is printed on both streams, and the exit code.
-/

namespace RestPlugin.Command

open Files Pipeline Report

/-- What a command prints, line by line, and its exit code. -/
structure Outcome where
  exit : Nat
  output : List String := []
  errors : List String := []
deriving DecidableEq, Repr, Inhabited

/-- The version of the program. -/
def programVersion : String := "0.5.0"

/-- The target under which the start of helpers is logged. -/
def runnerTarget : String := "wpkernel_codegen::pipeline::runner"

/-- The entry that is logged for a line of the journal. -/
def entryOf : Note → Entry
  | .report entry => entry
  | .running kind key =>
      { level := .debug
        scope := runnerTarget
        message := "running " ++ kind.text ++ " helper " ++ key }

/-- The logged lines of a journal, as far as they are severe enough. -/
def logLines (limit : Level) (journal : List Note) : List String :=
  ((journal.map entryOf).filter fun entry => entry.level.rank ≤ limit.rank).map Entry.line

/-- A word with an ending unless the number is one. -/
def plural (word : String) (count : Nat) : String := if count == 1 then word else word ++ "s"

/-- The line for a resource. -/
def resourceLine (resource : Ir.Resource) : String :=
  let count := resource.routes.length
  "  - " ++ resource.name ++ " (" ++ ((resource.storage.map Ir.Storage.mode).getD "no storage") ++
    ", " ++ toString count ++ " " ++ plural "route" count ++ ")"

/-- The lines for all resources. -/
def resourceLines (ir : Ir) : List String :=
  ("Resources (" ++ toString ir.resources.length ++ "):") :: ir.resources.map resourceLine

/-- The lines for diagnostics. -/
def diagnosticLines (diagnostics : List Diagnostic) : List String :=
  diagnostics.map fun diagnostic => "warning: " ++ diagnostic.display

/-- A line that divides sections. -/
def divider (label : String) : String := s!"── {label} ──"

/-- The beginning of a hash. -/
def shortHash (hash : String) : String := String.ofList (hash.toList.take 12)

/-- The report of a check. -/
def checkLines (config : String) (loaded : Config.Loaded) (result : Pipeline.Result) :
    List String :=
  let warnings := loaded.warnings.length + result.ir.warnings.length
  (if result.diagnostics.isEmpty then [] else [""]) ++
    Text.lines s!"✓ {config} is valid" ++
    ["", "Namespace: " ++ result.ir.php.phpNamespace] ++ resourceLines result.ir ++
    (if warnings == 0 then []
      else ["", toString warnings ++ " " ++ plural "warning" warnings ++ " reported"])

/-- The lines for a previewed file. -/
def previewLines (file : Output.File) : List String :=
  divider file.path :: Text.lines file.content

/-- The report of a generation. -/
def generationLines (ir : Ir) : Generation → List String
  | .preview files =>
      files.flatMap previewLines ++
        [divider "Summary", toString files.length ++ " files would be generated"]
  | .upToDate manifest =>
      Text.lines (s!"Up to date: {manifest} already records IR " ++ shortHash ir.hash)
  | .written root summary =>
      ["Namespace: " ++ ir.php.phpNamespace, "IR: " ++ shortHash ir.hash] ++ resourceLines ir ++
        ["", s!"Generated in {root}:"] ++ summary.written.map ("  + " ++ ·) ++
        (if summary.skipped.isEmpty then []
          else ["Skipped: " ++ toString summary.skipped.length])

/-- The outcome of a command that could not be carried out. -/
def failed (log : List String) (error : Error) : Outcome where
  exit := 1
  errors := log ++ error.chain

variable {m : Type → Type} [Monad m]

/-- Carries out a command. -/
def perform (system : System m) (limit : Level) : Job → m Outcome
  | .check config => do
      match ← Config.load system config with
      | .error error => return failed [] (.unusable error)
      | .ok loaded =>
          match check loaded with
          | (.error error, journal) => return failed (logLines limit journal) error
          | (.ok result, journal) =>
              pure
                { exit := 0
                  output := checkLines config loaded result
                  errors := logLines limit journal ++ diagnosticLines result.diagnostics }
  | .generate config output dryRun force => do
      match ← Config.load system config with
      | .error error => return failed [] (.unusable error)
      | .ok loaded =>
          match ← generate system loaded { output, dryRun, force } with
          | (.error error, journal) => return failed (logLines limit journal) error
          | (.ok (result, generation), journal) =>
              pure
                { exit := 0
                  output := generationLines result.ir generation
                  errors := logLines limit journal ++ diagnosticLines result.diagnostics }
  | .ir config pretty => do
      match ← Config.load system config with
      | .error error => return failed [] (.unusable error)
      | .ok loaded =>
          match Ir.build loaded with
          | .error error => return failed [] (.representation error)
          | .ok ir =>
              pure
                { exit := 0
                  output := [if pretty then ir.toJson.pretty else ir.toJson.compact] }

/-- Carries out a command line. -/
def run (system : System m) (arguments : List String) : m Outcome :=
  match readArguments arguments with
  | .error error => return { exit := 2, errors := ["error: " ++ error.message] }
  | .ok .version => return { exit := 0, output := ["wpk " ++ programVersion] }
  | .ok (.perform limit job) => perform system limit job

end RestPlugin.Command
