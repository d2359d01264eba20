import RestPlugin.Ir.Error
import RestPlugin.Php.Build
import RestPlugin.Pipeline.Diagnostic
import RestPlugin.Report.Entry

/-!
# The context of runs

What helpers see and leave behind: the stage that is running, the resources registered so far, the
events, and everything that was reported.  A context can serve several runs.
-/

namespace RestPlugin.Pipeline

open Report

/-- An event of a run. -/
structure Event where
  name : String
  helper : Option String := none
  payload : Option Json := none
deriving Repr, Inhabited

/-- A line of the journal: a reported message, or the start of a helper. -/
inductive Note where
  | report (entry : Entry)
  | running (kind : Stage) (key : String)
deriving Repr, Inhabited

/-- The state of runs. -/
structure Context where
  scope : String := ""
  phase : Option Stage := none
  resources : List String := []
  events : List Event := []
  journal : List Note := []
deriving Repr, Inhabited

namespace Context

/-- The reported messages. -/
def entries (context : Context) : List Entry :=
  context.journal.filterMap fun
    | .report entry => some entry
    | .running _ _ => none

/-- Reports a message under the scope of the context. -/
def report (context : Context) (level : Level) (message : String) (data : Option Json) : Context :=
  { context with
    journal := context.journal ++ [.report ⟨level, context.scope, message, data⟩] }

/-- Reports a message under a scope below that of the context. -/
def reportBelow (context : Context) (scope : String) (level : Level) (message : String)
    (data : Option Json) : Context :=
  { context with
    journal := context.journal ++
      [.report ⟨level, childScope context.scope scope, message, data⟩] }

/-- Adds messages that were reported elsewhere. -/
def append (context : Context) (entries : List Entry) : Context :=
  { context with journal := context.journal ++ entries.map .report }

/-- Notes that a helper starts. -/
def start (context : Context) (kind : Stage) (key : String) : Context :=
  { context with journal := context.journal ++ [.running kind key] }

/-- Enters or leaves a stage. -/
def setPhase (context : Context) (phase : Option Stage) : Context := { context with phase }

/-- Registers a resource, once. -/
def registerResource (context : Context) (name : String) : Context :=
  if context.resources.contains name then context
  else { context with resources := context.resources ++ [name] }

/-- Records an event. -/
def record (context : Context) (event : Event) : Context :=
  { context with events := context.events ++ [event] }

/-- Records that a helper was completed. -/
def completed (context : Context) (kind : Stage) (key : String) : Context :=
  context.record ⟨"helper.completed", some key, some (.obj [("kind", .str kind.text)])⟩

/-- Forgets the events. -/
def clear (context : Context) : Context := { context with events := [] }

/-- Forgets the events, the resources and the stage. -/
def reset (context : Context) : Context :=
  { context with events := [], resources := [], phase := none }

end Context

/-- Why a helper failed. -/
inductive Failure where
  | representation (error : Ir.Error)
  | tree (error : Php.BuildError)
  | controller (resource : String) (error : Php.BuildError)
  | resourcesWithoutMeta
  | capabilitiesWithoutResources
  | phpWithoutMeta
  | incompleteDraft
  | unknownSchema (resource schema : String)
  | other (message : String)
deriving DecidableEq, Repr, Inhabited

/-- The messages of a failure, from the outermost to the innermost. -/
def Failure.chain : Failure → List String
  | representation error => [error.message]
  | tree error => [error.message]
  | controller resource error =>
      [s!"failed to compose the \"{resource}\" controller", error.message]
  | resourcesWithoutMeta => ["IR meta must be built before resources"]
  | capabilitiesWithoutResources => ["IR resources must be built before the capability map"]
  | phpWithoutMeta => ["IR meta must be built before the PHP project"]
  | incompleteDraft => ["IR draft is incomplete after the core fragments ran"]
  | unknownSchema resource schema =>
      [s!"resource \"{resource}\" references schema \"{schema}\", which is not part of the IR"]
  | other message => [message]

/-- Why a run failed: at a helper of a stage, which states a kind of its own, or between the
stages. -/
inductive Error where
  | helper (stage kind : Stage) (key : String) (failure : Failure)
  | finalise (error : Ir.Error)
deriving DecidableEq, Repr, Inhabited

/-- The messages of an error, from the outermost to the innermost. -/
def Error.chain : Error → List String
  | helper _ kind key failure =>
      (kind.text ++ s!" helper \"{key}\" failed") :: failure.chain
  | finalise error => ["failed to finalise the IR", error.message]

/-- A change of an output by a helper, which may fail and may leave traces in the context. -/
abbrev Action (ω : Type) : Type := ω → Context → Except Failure ω × Context

end RestPlugin.Pipeline
