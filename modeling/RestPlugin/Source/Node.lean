import RestPlugin.Json.Basic

/-!
# Trees of a parsed text

A configuration text is read into a tree before it is fitted into the configuration model.  Where
the text stops being well formed the tree ends in a flaw, so a reader of the tree meets the parts
of the text in their order and the earliest problem decides, whether it is a flaw of the text or a
part that does not fit.
-/

namespace RestPlugin.Source

open Number

/-- Why a text could not be taken.  A malformed text carries the number of bytes up to and
including the first one that cannot continue it. -/
inductive Flaw where
  | malformed (reach : Nat)
  | unfit
deriving DecidableEq, Repr, Inhabited

/-- A value without parts. -/
inductive Scalar where
  | null
  | bool (value : Bool)
  | int (value : Int)
  | float (value : Binary64)
  | str (value : String)
deriving Repr, Inhabited

/-- A tree.  The parts of a list and of a table carry the byte offset at which they start; `stop` is
the flaw that ends them early.  `alone` is what a reader finds wrong with a table that is to have
exactly one entry.  Where a tree could not be read, `flaw` is what a reader of any value finds and
`asWord` what a reader finds who expects a text or a table. -/
inductive Node where
  | scalar (value : Scalar)
  | list (items : List (Nat × Node)) (stop : Option Flaw)
  | table (entries : List (String × Nat × Node)) (stop alone : Option Flaw)
  | broken (flaw asWord : Flaw)
deriving Repr, Inhabited

/-- A whole text: its tree and what is wrong after it. -/
structure Document where
  start : Nat
  root : Node
  trailing : Option Flaw
deriving Repr, Inhabited

/-- Fails with a flaw if there is one. -/
def Flaw.check : Option Flaw → Except Flaw Unit
  | none => .ok ()
  | some flaw => .error flaw

namespace Node

/-- The null value. -/
def null : Node := scalar .null

/-- A text value. -/
def str (value : String) : Node := scalar (.str value)

/-- A value that is well written but has no meaning. -/
def meaningless : Node := broken .unfit .unfit

/-- A table that was read to its end. -/
def closedTable (entries : List (String × Nat × Node)) : Node :=
  table entries none (if entries.length == 1 then none else some .unfit)

mutual

/-- Reports the first flaw inside a tree. -/
def force : Node → Except Flaw Unit
  | scalar _ => .ok ()
  | list items stop => do
      forceItems items
      Flaw.check stop
  | table entries stop _ => do
      forceEntries entries
      Flaw.check stop
  | broken flaw _ => .error flaw
termination_by structural node => node

/-- Reports the first flaw inside the items of a list. -/
def forceItems : List (Nat × Node) → Except Flaw Unit
  | [] => .ok ()
  | (_, node) :: rest => do
      force node
      forceItems rest
termination_by structural items => items

/-- Reports the first flaw inside the entries of a table. -/
def forceEntries : List (String × Nat × Node) → Except Flaw Unit
  | [] => .ok ()
  | (_, _, node) :: rest => do
      force node
      forceEntries rest
termination_by structural entries => entries

end

/-- A scalar as a JSON value. -/
def scalarJson : Scalar → Json
  | .null => .null
  | .bool value => .bool value
  | .int value => .int value
  | .float value => .float value
  | .str value => .str value

mutual

/-- The JSON value of a tree, with ascending keys and the last value of a repeated key. -/
def toJson : Node → Except Flaw Json
  | scalar value => .ok (scalarJson value)
  | list items stop => do
      let items ← itemsToJson items
      Flaw.check stop
      .ok (.arr items)
  | table entries stop _ => do
      let fields ← entriesToJson entries
      Flaw.check stop
      .ok (.obj (Keyed.sorted fields))
  | broken flaw _ => .error flaw
termination_by structural node => node

/-- The JSON values of the items of a list. -/
def itemsToJson : List (Nat × Node) → Except Flaw (List Json)
  | [] => .ok []
  | (_, node) :: rest => do
      let item ← toJson node
      let items ← itemsToJson rest
      .ok (item :: items)
termination_by structural items => items

/-- The JSON values of the entries of a table, in the order of the text. -/
def entriesToJson : List (String × Nat × Node) → Except Flaw (List (String × Json))
  | [] => .ok []
  | (key, _, node) :: rest => do
      let value ← toJson node
      let fields ← entriesToJson rest
      .ok ((key, value) :: fields)
termination_by structural entries => entries

end

end Node

/-- The JSON value of a whole document. -/
def Document.toJson (document : Document) : Except Flaw Json := do
  let value ← document.root.toJson
  Flaw.check document.trailing
  .ok value

end RestPlugin.Source
