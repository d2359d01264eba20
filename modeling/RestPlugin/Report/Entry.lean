import RestPlugin.Json.Writer

/-!
# Reported messages

Messages are reported under a scope, whose parts are separated by dots, and may carry data.
-/

namespace RestPlugin.Report

/-- How severe a message is. -/
inductive Level where
  | error
  | warn
  | info
  | debug
  | trace
deriving DecidableEq, Repr, Inhabited

namespace Level

/-- Levels by severity. -/
def rank : Level → Nat
  | error => 0
  | warn => 1
  | info => 2
  | debug => 3
  | trace => 4

/-- The name of a level. -/
def text : Level → String
  | error => "ERROR"
  | warn => "WARN"
  | info => "INFO"
  | debug => "DEBUG"
  | trace => "TRACE"

/-- The word for a level in front of a message. -/
def label : Level → String
  | error => "error"
  | warn => "warning"
  | info => "info"
  | debug => "debug"
  | trace => "trace"

/-- All levels. -/
def all : List Level := [error, warn, info, debug, trace]

end Level

/-- A reported message. -/
structure Entry where
  level : Level
  scope : String
  message : String
  context : Option Json := none
deriving Repr, Inhabited

/-- The scope with a given name below another one. -/
def childScope (parent child : String) : String :=
  if parent == "" then child else parent ++ "." ++ child

/-- The line that is printed for an entry, with the keys of its data in ascending order. -/
def Entry.line (entry : Entry) : String :=
  entry.level.label ++ "[" ++ entry.scope ++ "]: " ++ entry.message ++
    match entry.context with
    | none => ""
    | some context => " " ++ context.sortKeys.compact

end RestPlugin.Report
