import RestPlugin.Output.Write
import RestPlugin.Plugin.Builders

/-!
# Generating a plugin

The pipeline runs first.  If the manifest of an earlier generation records the same hash, nothing is
written unless that is forced; a dry run never writes.
-/

namespace RestPlugin.Command

open Files Output Pipeline

/-- What a command was asked for could not be done. -/
inductive Error where
  | unusable (error : Config.Error)
  | representation (error : Ir.Error)
  | invalid (error : Pipeline.Error)
  | generation (error : Pipeline.Error)
  | manifest (path : String) (fault : Fault)
  | write (error : WriteError)

/-- The messages of an error, from the outermost to the innermost. -/
def Error.chain : Error → List String
  | unusable error => [error.message]
  | representation error => [error.message]
  | invalid error => "Validation failed" :: error.chain
  | generation error => "Generation failed" :: error.chain
  | manifest path fault => [s!"failed to read {path}", fault.message]
  | write error => "Failed to write generated files" :: error.chain

/-- The scope under which commands report. -/
def scope : String := "wpk"

/-- How a plugin is generated. -/
structure GenerateOptions where
  output : String
  dryRun : Bool := false
  force : Bool := false
deriving DecidableEq, Repr, Inhabited

/-- What became of the generated files. -/
inductive Generation where
  | written (root : String) (summary : Summary)
  | upToDate (manifest : String)
  | preview (files : List Output.File)
deriving DecidableEq, Repr, Inhabited

/-- The place of the manifest of a project. -/
def manifestTarget (output : String) (php : Ir.PhpProject) : String :=
  Path.join (Path.join output php.outputDirectory) Plugin.manifestPath

/-- The message of files that need not be written. -/
def upToDateEntry (hash : String) : Report.Entry where
  level := .info
  scope := scope
  message := "Generated files are up to date."
  context := some (.obj [("irHash", .str hash)])

variable {m : Type → Type} [Monad m]

/-- Writes the files of a run unless they are up to date. -/
def writeResult (system : System m) (options : GenerateOptions) (result : Pipeline.Result) :
    m (Except Error Generation × List Report.Entry) := do
  let target := manifestTarget options.output result.ir.php
  match ← system.read target with
  | .error fault => return (.error (.manifest target fault), [])
  | .ok text =>
      if !options.force && text.bind Plugin.manifestHash == some result.ir.hash then
        return (.ok (.upToDate target), [upToDateEntry result.ir.hash])
      else
        match ← writeAll system scope options.output result.files with
        | (.error error, entries) => return (.error (.write error), entries)
        | (.ok summary, entries) => return (.ok (.written options.output summary), entries)

/-- Generates a plugin: what the run produced, what became of the files, and the journal. -/
def generate (system : System m) (loaded : Config.Loaded) (options : GenerateOptions) :
    m (Except Error (Pipeline.Result × Generation) × List Note) :=
  match Plugin.pipeline.run loaded [] { scope } with
  | (.error error, context) => return (.error (.generation error), context.journal)
  | (.ok result, context) =>
      if options.dryRun then return (.ok (result, .preview result.files), context.journal)
      else do
        match ← writeResult system options result with
        | (.error error, entries) => return (.error error, (context.append entries).journal)
        | (.ok generation, entries) =>
            return (.ok (result, generation), (context.append entries).journal)

/-- Checks a configuration by running the pipeline without writing. -/
def check (loaded : Config.Loaded) : Except Error Pipeline.Result × List Note :=
  match Plugin.pipeline.run loaded [] { scope } with
  | (.error error, context) => (.error (.invalid error), context.journal)
  | (.ok result, context) => (.ok result, context.journal)

end RestPlugin.Command
