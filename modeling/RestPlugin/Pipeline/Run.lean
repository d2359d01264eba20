import RestPlugin.Ir.Build
import RestPlugin.Output.File
import RestPlugin.Pipeline.Context
import RestPlugin.Pipeline.Schedule

/-!
# Runs

A pipeline holds helpers for both stages.  A run schedules and applies the fragments, completes the
representation, and then schedules and applies the builders.  The first helper that fails ends the
run; oddities about the helpers are collected and reported at the end.
-/

namespace RestPlugin

open Pipeline

/-- Registered helpers, with the conflicts between them. -/
structure Pipeline where
  fragments : List (Helper (Config.Loaded → Action Ir.Draft)) := []
  builders : List (Helper (Ir → Action Output.Queue)) := []
  conflicts : List Diagnostic := []

namespace Pipeline

/-- Adds a helper to those of a stage.  The first helper with a key stays. -/
def register {α : Type} (stage : Stage) (helpers : List (Helper α)) (helper : Helper α) :
    List (Helper α) × List Diagnostic :=
  match helpers.find? fun registered => registered.key == helper.key with
  | some registered =>
      (helpers, [.conflict stage helper.key registered.label helper.label])
  | none => (helpers ++ [helper], [])

/-- Registers a fragment. -/
def addFragment (pipeline : Pipeline) (helper : Helper (Config.Loaded → Action Ir.Draft)) :
    Pipeline :=
  let (fragments, conflicts) := register .fragment pipeline.fragments helper
  { pipeline with fragments, conflicts := pipeline.conflicts ++ conflicts }

/-- Registers a builder. -/
def addBuilder (pipeline : Pipeline) (helper : Helper (Ir → Action Output.Queue)) : Pipeline :=
  let (builders, conflicts) := register .builder pipeline.builders helper
  { pipeline with builders, conflicts := pipeline.conflicts ++ conflicts }

/-- The descriptions of all helpers in JSON, fragments first. -/
def descriptions (pipeline : Pipeline) : List Json :=
  pipeline.fragments.map Helper.toJson ++ pipeline.builders.map Helper.toJson

/-- The keys of all helpers, fragments first. -/
def allKeys (pipeline : Pipeline) : List String :=
  keys pipeline.fragments ++ keys pipeline.builders

/-- Whether a helper was applied. -/
inductive Status where
  | executed
  | skipped
deriving DecidableEq, Repr, Inhabited

/-- The spelling of a status. -/
def Status.text : Status → String
  | executed => "executed"
  | skipped => "skipped"

/-- What became of a helper. -/
structure Step where
  key : String
  stage : Stage
  status : Status
deriving DecidableEq, Repr, Inhabited

/-- What a successful run produces. -/
structure Result where
  ir : Ir
  files : Output.Queue
  diagnostics : List Diagnostic
  steps : List Step

/-- Applies helpers in order to an input and an output. -/
def applyAll {ι ω : Type} (stage : Stage) (input : ι) :
    List (Helper (ι → Action ω)) → ω → Context → Except Error ω × Context
  | [], output, context => (.ok output, context)
  | helper :: rest, output, context =>
      match helper.action input output (context.start helper.kind helper.key) with
      | (.error failure, context) =>
          (.error (.helper stage helper.kind helper.key failure), context)
      | (.ok output, context) =>
          applyAll stage input rest output (context.completed helper.kind helper.key)

/-- The steps of a schedule: what was applied, then what was skipped. -/
def Schedule.steps {α : Type} (stage : Stage) (schedule : Schedule α) : List Step :=
  (keys schedule.order).map (⟨·, stage, .executed⟩) ++
    (keys schedule.skipped).map (⟨·, stage, .skipped⟩)

/-- The keys that some helper depends on. -/
def consumed (pipeline : Pipeline) : List String :=
  pipeline.fragments.flatMap Helper.dependsOn ++ pipeline.builders.flatMap Helper.dependsOn

/-- The diagnostics of applied helpers that nobody needs: they are not terminal, not requested, and
nothing depends on them. -/
def unusedDiagnostics {α : Type} (helpers : List (Helper α))
    (done consumed requested : List String) : List Diagnostic :=
  (helpers.filter fun helper =>
    done.contains helper.key && !helper.terminal && !consumed.contains helper.key &&
      !requested.contains helper.key).map
    fun helper => .unusedHelper helper.kind helper.key helper.dependsOn

/-- The schedule of the fragments. -/
def fragmentSchedule (pipeline : Pipeline) : Schedule (Config.Loaded → Action Ir.Draft) :=
  schedule pipeline.fragments [] []

/-- The schedule of the builders. -/
def builderSchedule (pipeline : Pipeline) : Schedule (Ir → Action Output.Queue) :=
  schedule pipeline.builders (keys pipeline.fragmentSchedule.order)
    (keys pipeline.fragmentSchedule.skipped)

/-- The diagnostics of a run. -/
def diagnostics (pipeline : Pipeline) (requested : List String) : List Diagnostic :=
  pipeline.conflicts ++ pipeline.fragmentSchedule.diagnostics ++
    pipeline.builderSchedule.diagnostics ++
    unusedDiagnostics pipeline.fragments (keys pipeline.fragmentSchedule.order)
      pipeline.consumed requested ++
    unusedDiagnostics pipeline.builders (keys pipeline.builderSchedule.order)
      pipeline.consumed requested

/-- Reports a diagnostic as a warning. -/
def forward (context : Context) (diagnostic : Diagnostic) : Context :=
  context.report .warn diagnostic.message (some diagnostic.toJson)

/-- Runs a pipeline.  The keys in `requested` never count as unused. -/
def run (pipeline : Pipeline) (loaded : Config.Loaded) (requested : List String)
    (context : Context) : Except Error Result × Context :=
  match applyAll .fragment loaded pipeline.fragmentSchedule.order {}
      (context.setPhase (some .fragment)) with
  | (.error error, context) => (.error error, context)
  | (.ok draft, context) =>
      match draft.finalise with
      | .error error => (.error (.finalise error), context)
      | .ok ir =>
          match applyAll .builder ir pipeline.builderSchedule.order []
              (context.setPhase (some .builder)) with
          | (.error error, context) => (.error error, context)
          | (.ok files, context) =>
              let diagnostics := pipeline.diagnostics requested
              (.ok
                { ir
                  files
                  diagnostics
                  steps := Schedule.steps .fragment pipeline.fragmentSchedule ++
                    Schedule.steps .builder pipeline.builderSchedule },
               diagnostics.foldl forward (context.setPhase none))

end Pipeline

end RestPlugin
