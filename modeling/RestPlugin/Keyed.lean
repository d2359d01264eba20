/-!
# Keyed lists

Finite maps with string keys, held as lists of pairs.  Two orders occur: in `put` a key keeps the
place of its first entry, in `insert` the keys are ascending.  In both the last value of a key wins.
-/

namespace RestPlugin.Keyed

variable {α β : Type}

/-- The value of a key. -/
def get? (key : String) : List (String × α) → Option α
  | [] => none
  | (k, value) :: rest => if k == key then some value else get? key rest

/-- Whether a key occurs. -/
def contains (key : String) (entries : List (String × α)) : Bool := (get? key entries).isSome

/-- Sets the value of a key, at the place of the key if it occurs and at the end otherwise. -/
def put (key : String) (value : α) : List (String × α) → List (String × α)
  | [] => [(key, value)]
  | (k, old) :: rest =>
      if k == key then (k, value) :: rest else (k, old) :: put key value rest

/-- Sets the value of a key in a list with ascending keys. -/
def insert (key : String) (value : α) : List (String × α) → List (String × α)
  | [] => [(key, value)]
  | (k, old) :: rest =>
      if key < k then (key, value) :: (k, old) :: rest
      else if k == key then (key, value) :: rest
      else (k, old) :: insert key value rest

/-- The entries with the order of first occurrence and the last value of each key. -/
def inOrder (entries : List (String × α)) : List (String × α) :=
  entries.foldl (fun acc entry => put entry.1 entry.2 acc) []

/-- The entries with ascending keys and the last value of each key. -/
def sorted (entries : List (String × α)) : List (String × α) :=
  entries.foldl (fun acc entry => insert entry.1 entry.2 acc) []

/-- Applies a function to every value. -/
def mapValues (f : α → β) (entries : List (String × α)) : List (String × β) :=
  entries.map fun entry => (entry.1, f entry.2)

end RestPlugin.Keyed
