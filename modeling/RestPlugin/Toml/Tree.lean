import RestPlugin.Source.Node

/-!
# Tables under construction

The tables of a TOML document are filled by headers and by dotted keys, which must not define a
table twice.  A table remembers how it came about: an implicit one was only passed through, a dotted
one was opened by a dotted key.
-/

namespace RestPlugin.Toml

open Source

/-- What stands under a key: a closed value, a table, or an array of tables. -/
inductive Item where
  | value (node : Node)
  | table (implicit dotted : Bool) (entries : List (String × Item))
  | tables (elements : List (List (String × Item)))
deriving Inhabited

/-- The entries of a table under construction. -/
abbrev Entries : Type := List (String × Item)

/-- Changes the table at the end of a path.  Tables on the way are created as needed; of an array
of tables the last element is meant.  A dotted path does not enter a table that was defined by a
header.  The change is told whether the table is dotted. -/
def descend (dotted : Bool) (change : Bool → Entries → Option Entries) :
    List String → Bool → Entries → Option Entries
  | [], isDotted, entries => change isDotted entries
  | key :: path, _, entries =>
      match Keyed.get? key entries with
      | none => do
          let inner ← descend dotted change path dotted []
          some (Keyed.put key (.table true dotted inner) entries)
      | some (.table implicit isDotted inner) =>
          if dotted && !implicit then none
          else do
            let inner ← descend dotted change path isDotted inner
            some (Keyed.put key (.table implicit isDotted inner) entries)
      | some (.tables elements) =>
          match elements.getLast? with
          | none => none
          | some last => do
              let last ← descend dotted change path false last
              some (Keyed.put key (.tables (elements.dropLast ++ [last])) entries)
      | some (.value _) => none

/-- Splits a key into its path and its last part. -/
def splitLast : List String → Option (List String × String)
  | [] => none
  | [last] => some ([], last)
  | part :: rest => (splitLast rest).map fun (path, last) => (part :: path, last)

/-- Adds a value under a new key.  A dotted key adds to a dotted table and a plain key to another
one. -/
def addValue (key : List String) (node : Node) (isDotted : Bool) (entries : Entries) :
    Option Entries := do
  let (path, last) ← splitLast key
  descend true
    (fun isDotted entries =>
      if isDotted == path.isEmpty || Keyed.contains last entries then none
      else some (Keyed.put last (.value node) entries))
    path isDotted entries

/-- Opens the table of a header.  A table that was only passed through so far may be opened. -/
def openTable (key : List String) (entries : Entries) : Option Entries := do
  let (path, last) ← splitLast key
  descend false
    (fun _ entries =>
      match Keyed.get? last entries with
      | none => some (Keyed.put last (.table false false []) entries)
      | some (.table true false inner) => some (Keyed.put last (.table false false inner) entries)
      | some _ => none)
    path false entries

/-- Opens a new element of an array of tables. -/
def openElement (key : List String) (entries : Entries) : Option Entries := do
  let (path, last) ← splitLast key
  descend false
    (fun _ entries =>
      match Keyed.get? last entries with
      | none => some (Keyed.put last (.tables [[]]) entries)
      | some (.tables elements) => some (Keyed.put last (.tables (elements ++ [[]])) entries)
      | some _ => none)
    path false entries

/-- Adds a value below the table of the current header. -/
def addBelow (header key : List String) (node : Node) (entries : Entries) : Option Entries :=
  descend false (addValue key node) header false entries

/-- A table with ascending keys. -/
def sortedTable (entries : List (String × Node)) : Node :=
  .closedTable ((Keyed.sorted entries).map fun (key, node) => (key, 0, node))

mutual

/-- The tree of an item. -/
def Item.toNode : Item → Node
  | .value node => node
  | .table _ _ entries => sortedTable (entriesToNodes entries)
  | .tables elements => .list (elementsToNodes elements) none
termination_by structural item => item

/-- The trees of the entries of a table. -/
def entriesToNodes : List (String × Item) → List (String × Node)
  | [] => []
  | (key, item) :: rest => (key, item.toNode) :: entriesToNodes rest
termination_by structural entries => entries

/-- The trees of the elements of an array of tables. -/
def elementsToNodes : List (List (String × Item)) → List (Nat × Node)
  | [] => []
  | entries :: rest => (0, sortedTable (entriesToNodes entries)) :: elementsToNodes rest
termination_by structural elements => elements

end

end RestPlugin.Toml
