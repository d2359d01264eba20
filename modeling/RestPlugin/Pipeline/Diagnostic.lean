import RestPlugin.Pipeline.Helper

/-!
# Diagnostics

What is odd about a set of helpers without keeping a run from going on.
-/

namespace RestPlugin.Pipeline

/-- A finding about a helper. -/
inductive Diagnostic where
  | conflict (kind : Stage) (key first second : String)
  | missingDependency (kind : Stage) (key dependency : String)
  | dependencyCycle (kind : Stage) (key dependency : String)
  | unusedHelper (kind : Stage) (key : String) (dependsOn : List String)
deriving DecidableEq, Repr, Inhabited

namespace Diagnostic

/-- The class of a diagnostic.  A cycle counts as a missing dependency. -/
def code : Diagnostic → String
  | conflict _ _ _ _ => "conflict"
  | missingDependency _ _ _ | dependencyCycle _ _ _ => "missing-dependency"
  | unusedHelper _ _ _ => "unused-helper"

/-- The stage that is named: in a conflict the one for which the helpers were registered, and
otherwise the one that the helper states. -/
def kind : Diagnostic → Stage
  | conflict kind _ _ _ | missingDependency kind _ _ | dependencyCycle kind _ _
  | unusedHelper kind _ _ => kind

/-- The key of the helper. -/
def key : Diagnostic → String
  | conflict _ key _ _ | missingDependency _ key _ | dependencyCycle _ key _
  | unusedHelper _ key _ => key

/-- The beginning of every message: the stage and the key. -/
def subject (diagnostic : Diagnostic) : String :=
  diagnostic.kind.text ++ " helper \"" ++ diagnostic.key ++ "\" "

/-- The message of a diagnostic. -/
def message (diagnostic : Diagnostic) : String :=
  diagnostic.subject ++
    match diagnostic with
    | conflict _ _ first second =>
      s!"is already registered by {first}; the registration from {second} was ignored."
    | missingDependency _ _ dependency =>
      s!"depends on \"{dependency}\", which is not registered; the helper was skipped."
    | dependencyCycle _ _ dependency =>
      s!"depends on \"{dependency}\", which is part of a dependency cycle; the helper was skipped."
    | unusedHelper _ _ _ => "ran but no helper depends on it and it was not requested."

/-- The class and the message. -/
def display (diagnostic : Diagnostic) : String := diagnostic.code ++ ": " ++ diagnostic.message

/-- The part of the JSON form that depends on the class. -/
def detail : Diagnostic → String × Json
  | conflict _ _ first second => ("helpers", .strings [first, second])
  | missingDependency _ _ dependency | dependencyCycle _ _ dependency =>
      ("dependency", .str dependency)
  | unusedHelper _ _ dependsOn => ("dependsOn", .strings dependsOn)

/-- The JSON form of a diagnostic. -/
def toJson (diagnostic : Diagnostic) : Json :=
  .obj [("type", .str diagnostic.code), ("key", .str diagnostic.key),
    ("kind", .str diagnostic.kind.text), diagnostic.detail,
    ("message", .str diagnostic.message)]

end Diagnostic

end RestPlugin.Pipeline
