import RestPlugin.Keyed
import RestPlugin.Number.Shortest

/-!
# JSON values

A JSON value whose numbers are integers or binary floating-point numbers.  The fields of an object
form a list, so an object has an order; `sortKeys` forgets it.
-/

namespace RestPlugin

open Number

/-- A JSON value. -/
inductive Json where
  | null
  | bool (value : Bool)
  | int (value : Int)
  | float (value : Binary64)
  | str (value : String)
  | arr (items : List Json)
  | obj (fields : List (String × Json))
deriving Repr, Inhabited

namespace Json

/-- The value of an optional part, `null` when it is absent. -/
def ofOption {α : Type} (f : α → Json) : Option α → Json
  | none => null
  | some value => f value

/-- A list of strings. -/
def strings (items : List String) : Json := arr (items.map str)

/-- A natural number. -/
def nat (n : Nat) : Json := int n

mutual

/-- The value with the keys of every object in ascending order. -/
def sortKeys : Json → Json
  | arr items => arr (sortItems items)
  | obj fields => obj (Keyed.sorted (sortFields fields))
  | scalar => scalar
termination_by structural value => value

/-- The items with sorted keys. -/
def sortItems : List Json → List Json
  | [] => []
  | item :: rest => sortKeys item :: sortItems rest
termination_by structural items => items

/-- The fields in their order, their values with sorted keys. -/
def sortFields : List (String × Json) → List (String × Json)
  | [] => []
  | (key, value) :: rest => (key, sortKeys value) :: sortFields rest
termination_by structural fields => fields

end

/-- The field of an object with a given key. -/
def field? (key : String) : Json → Option Json
  | obj fields => Keyed.get? key fields
  | _ => none

/-- Whether a value is an object. -/
def isObject : Json → Bool
  | obj _ => true
  | _ => false

end Json

end RestPlugin
