import RestPlugin.Number.Shortest
import RestPlugin.Text.Ascii

/-!
# The vocabulary of REST resources

The closed sets of words that both a configuration and the project built from it use: operations,
request methods, the kinds of identities, meta values and query parameters, post features,
capability targets, and the segments of cache keys.  Each word has one spelling.
-/

namespace RestPlugin

open Number

/-- The operations a resource can offer. -/
inductive Operation where
  | list
  | get
  | create
  | update
  | remove
deriving DecidableEq, Repr, Inhabited

namespace Operation

/-- All operations, in their order. -/
def all : List Operation := [list, get, create, update, remove]

/-- The spelling of an operation. -/
def text : Operation → String
  | list => "list"
  | get => "get"
  | create => "create"
  | update => "update"
  | remove => "remove"

/-- Whether an operation addresses a single existing item. -/
def isItemLevel : Operation → Bool
  | get | update | remove => true
  | list | create => false

/-- Whether an operation writes data. -/
def isWrite : Operation → Bool
  | create | update | remove => true
  | list | get => false

end Operation

/-- At most one value for each operation. -/
structure PerOperation (α : Type) where
  list : Option α := none
  get : Option α := none
  create : Option α := none
  update : Option α := none
  remove : Option α := none
deriving Repr, Inhabited

namespace PerOperation

variable {α : Type}

/-- The value of an operation. -/
def at? (values : PerOperation α) : Operation → Option α
  | .list => values.list
  | .get => values.get
  | .create => values.create
  | .update => values.update
  | .remove => values.remove

/-- Replaces the value of an operation. -/
def set (values : PerOperation α) (operation : Operation) (value : Option α) : PerOperation α :=
  match operation with
  | .list => { values with list := value }
  | .get => { values with get := value }
  | .create => { values with create := value }
  | .update => { values with update := value }
  | .remove => { values with remove := value }

/-- The operations that have a value, with it, in operation order. -/
def toList (values : PerOperation α) : List (Operation × α) :=
  Operation.all.filterMap fun operation => (values.at? operation).map (operation, ·)

/-- Whether no operation has a value. -/
def isEmpty (values : PerOperation α) : Bool := values.toList.isEmpty

end PerOperation

/-- Request methods. -/
inductive Method where
  | get
  | post
  | put
  | patch
  | delete
deriving DecidableEq, Repr, Inhabited

namespace Method

/-- All methods. -/
def all : List Method := [get, post, put, patch, delete]

/-- The spelling of a method. -/
def text : Method → String
  | get => "GET"
  | post => "POST"
  | put => "PUT"
  | patch => "PATCH"
  | delete => "DELETE"

/-- Whether a method writes data: all do but `GET`. -/
def isWrite (method : Method) : Bool := method != get

end Method

/-- What identifies an item: a number or a string. -/
inductive IdentityKind where
  | number
  | string
deriving DecidableEq, Repr, Inhabited

namespace IdentityKind

/-- Both kinds. -/
def all : List IdentityKind := [number, string]

/-- The spelling of a kind. -/
def text : IdentityKind → String
  | number => "number"
  | string => "string"

/-- The request parameters that may carry an identity of this kind. -/
def allowedParams : IdentityKind → List String
  | number => ["id"]
  | string => ["id", "slug", "uuid"]

/-- The request parameter of an identity that does not name one. -/
def defaultParam : IdentityKind → String
  | number => "id"
  | string => "slug"

end IdentityKind

/-- The features a post type may support. -/
inductive Support where
  | title
  | editor
  | excerpt
  | customFields
deriving DecidableEq, Repr, Inhabited

namespace Support

/-- All features. -/
def all : List Support := [title, editor, excerpt, customFields]

/-- The spelling of a feature. -/
def text : Support → String
  | title => "title"
  | editor => "editor"
  | excerpt => "excerpt"
  | customFields => "custom-fields"

end Support

/-- The types of meta values. -/
inductive MetaType where
  | string
  | integer
  | number
  | boolean
  | array
  | object
deriving DecidableEq, Repr, Inhabited

namespace MetaType

/-- All types. -/
def all : List MetaType := [string, integer, number, boolean, array, object]

/-- The spelling of a type. -/
def text : MetaType → String
  | string => "string"
  | integer => "integer"
  | number => "number"
  | boolean => "boolean"
  | array => "array"
  | object => "object"

end MetaType

/-- The types of query parameters. -/
inductive QueryType where
  | string
  | enum
deriving DecidableEq, Repr, Inhabited

namespace QueryType

/-- Both types. -/
def all : List QueryType := [string, enum]

/-- The spelling of a type. -/
def text : QueryType → String
  | string => "string"
  | enum => "enum"

end QueryType

/-- What a capability is checked against: the resource as a whole or one object. -/
inductive AppliesTo where
  | resource
  | object
deriving DecidableEq, Repr, Inhabited

namespace AppliesTo

/-- Both targets. -/
def all : List AppliesTo := [resource, object]

/-- The spelling of a target. -/
def text : AppliesTo → String
  | resource => "resource"
  | object => "object"

end AppliesTo

/-- One segment of a cache key. -/
inductive Segment where
  | bool (value : Bool)
  | int (value : Int)
  | float (value : Binary64)
  | text (value : String)
deriving DecidableEq, Repr, Inhabited

namespace Segment

/-- In a cache key a number is written without an exponent and without a fraction that is zero. -/
def numberLayout : Layout where
  tie := .up
  positionalFrom := none
  positionalTo := none
  wholeSuffix := ""
  zero := "0"
  infinite := "inf"
  minusInfinite := "-inf"
  nan := "NaN"

/-- The spelling of a segment inside a cache key. -/
def display : Segment → String
  | bool value => if value then "true" else "false"
  | int value => toString value
  | float value => numberLayout.write value
  | text value => value

/-- The segment that stands for the identity of an item. -/
def identityToken : Segment := text "\x7bid\x7d"

/-- Equality of segments, with numbers compared by value. -/
def sameValue : Segment → Segment → Bool
  | bool a, bool b => a == b
  | int a, int b => a == b
  | float a, float b => a.sameValue b
  | text a, text b => a == b
  | _, _ => false

end Segment

/-- Scans a path for placeholders: after each colon the longest run of letters, digits and
underscores, unless it is empty. -/
def placeholderChars : List Char → List (List Char)
  | [] => []
  | c :: rest =>
      if c == ':' then
        let name := rest.takeWhile Text.isWord
        if name.isEmpty then placeholderChars rest else name :: placeholderChars rest
      else placeholderChars rest

/-- The names of the placeholders of a route path, in order. -/
def placeholders (path : String) : List String :=
  (placeholderChars path.toList).map String.ofList

end RestPlugin
