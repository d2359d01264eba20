import RestPlugin.Json.Basic

/-!
# Helpers

A helper is a named piece of work.  It runs in one of two stages, after the helpers it depends on.
-/

namespace RestPlugin.Pipeline

/-- The stages of a run: fragments fill the representation, builders make files from it. -/
inductive Stage where
  | fragment
  | builder
deriving DecidableEq, Repr, Inhabited

/-- The spelling of a stage. -/
def Stage.text : Stage → String
  | fragment => "fragment"
  | builder => "builder"

/-- A piece of work with its key, the keys it depends on, and its priority among helpers that could
run.  A terminal helper is not meant to be depended on.  The kind is the stage that the helper
states for itself: messages and events repeat it, while the stage in which the helper runs is the
one for which it is registered. -/
structure Helper (α : Type) where
  key : String
  kind : Stage
  dependsOn : List String := []
  priority : Int := 0
  origin : Option String := none
  terminal : Bool := false
  action : α

namespace Helper

variable {α : Type}

/-- Where a helper comes from, or its key if that is not known. -/
def label (helper : Helper α) : String := helper.origin.getD helper.key

/-- The JSON form of the description of a helper. -/
def toJson (helper : Helper α) : Json :=
  .obj [("key", .str helper.key), ("kind", .str helper.kind.text),
    ("dependsOn", .strings helper.dependsOn), ("priority", .int helper.priority),
    ("origin", .ofOption .str helper.origin), ("terminal", .bool helper.terminal)]

end Helper

/-- The keys of helpers. -/
def keys {α : Type} (helpers : List (Helper α)) : List String := helpers.map Helper.key

end RestPlugin.Pipeline
