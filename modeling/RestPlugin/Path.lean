import RestPlugin.Text.Ascii

/-!
# File paths

A path is a text with `/` between its components.  Two paths name the same place when their
components agree: empty parts, inner `.` parts and trailing separators do not count, a leading `.`
and every `..` do.
-/

namespace RestPlugin.Path

/-- A component of a path. -/
inductive Component where
  | root
  | current
  | up
  | name (text : String)
deriving DecidableEq, Repr, Inhabited

/-- The place of a component among the kinds of components. -/
def Component.rank : Component → Nat
  | root => 0
  | current => 1
  | up => 2
  | name _ => 3

/-- Order of components: the root, `.`, `..`, then names by their text. -/
def Component.lt : Component → Component → Bool
  | name s, name t => s < t
  | c, d => c.rank < d.rank

/-- Whether a part between separators is no component unless it comes first. -/
def isSilent (part : String) : Bool := part == "" || part == "."

/-- The components of the parts after the first. -/
def innerComponents (parts : List String) : List Component :=
  (parts.filter fun part => !isSilent part).map fun part =>
    if part == ".." then .up else .name part

/-- The components of a path. -/
def components (path : String) : List Component :=
  match Text.splitOnChar '/' path with
  | [] => []
  | first :: rest =>
      if first == "" then
        if rest.isEmpty then [] else .root :: innerComponents rest
      else if first == "." then .current :: innerComponents rest
      else innerComponents (first :: rest)

/-- Whether two paths have the same components. -/
def same (p q : String) : Bool := components p == components q

/-- Lexicographic order of component lists. -/
def componentsLt : List Component → List Component → Bool
  | [], [] => false
  | [], _ :: _ => true
  | _ :: _, [] => false
  | c :: cs, d :: ds => if c == d then componentsLt cs ds else c.lt d

/-- Order of paths by components. -/
def lt (p q : String) : Bool := componentsLt (components p) (components q)

/-- Whether a path starts at the root. -/
def isAbsolute (path : String) : Bool := Text.startsWith path "/"

/-- A path below a base; an absolute path stays. -/
def join (base path : String) : String :=
  if isAbsolute path || base == "" then path
  else if base.toList.getLast? == some '/' then base ++ path
  else base ++ "/" ++ path

/-- The path without its last component. -/
def parent (path : String) : Option String :=
  match Text.splitOnChar '/' path with
  | [] => none
  | first :: rest =>
      match rest.reverse.dropWhile isSilent with
      | [] => if first == "" then none else some ""
      | _ :: above =>
          match above.dropWhile isSilent with
          | [] => if first == "" then some "/" else some first
          | kept => some (first ++ "/" ++ Text.join "/" kept.reverse)

/-- Drops parts until the given number of components is gone. -/
def dropComponents : Nat → List String → List String
  | 0, parts => parts
  | _ + 1, [] => []
  | n + 1, part :: rest =>
      if isSilent part then dropComponents (n + 1) rest else dropComponents n rest

/-- The parts without silent ones at the end. -/
def dropSilentEnd (parts : List String) : List String :=
  (parts.reverse.dropWhile isSilent).reverse

/-- What is left of a path after its first components, of which there is at least one. -/
def afterComponents (count : Nat) (path : String) : String :=
  let left := match Text.splitOnChar '/' path with
    | [] => []
    | first :: rest =>
        if isSilent first then dropComponents (count - 1) rest
        else dropComponents count (first :: rest)
  Text.join "/" (dropSilentEnd (left.dropWhile isSilent))

/-- A path without separators and silent parts at its end. -/
def trimEnd (path : String) : String :=
  match Text.splitOnChar '/' path with
  | [] => ""
  | first :: rest =>
      match dropSilentEnd rest with
      | [] => if first == "" && !rest.isEmpty then "/" else first
      | kept => first ++ "/" ++ Text.join "/" kept

/-- The part of a path below a base, or the path itself if it does not lie below it. -/
def relativeTo (base path : String) : String :=
  let above := components base
  if above.isPrefixOf (components path) then
    if above.isEmpty then trimEnd path else afterComponents above.length path
  else path

/-- The last component, if it is a name. -/
def fileName (path : String) : Option String :=
  match (components path).getLast? with
  | some (.name text) => some text
  | _ => none

/-- The part of the file name after its last dot, unless that dot comes first. -/
def extension (path : String) : Option String := do
  let name ← fileName path
  let reversed := name.toList.reverse
  let last := reversed.takeWhile (· != '.')
  let before := reversed.drop (last.length + 1)
  if last.length == reversed.length || before.isEmpty then none
  else some (String.ofList last.reverse)

/-- The extension in lower case. -/
def lowerExtension (path : String) : Option String := (extension path).map Text.lowerString

end RestPlugin.Path
