import RestPlugin.Files.System
import RestPlugin.Path

/-!
# A file system in memory

Files and directories are kept in the order of their paths.  Paths with the same components are the
same key, and a key keeps the spelling under which it was first used.  No operation fails.
-/

namespace RestPlugin.Files

/-- Files with their texts, directories, and the paths handed to a formatting hook so far. -/
structure Memory where
  files : List (String × String) := []
  directories : List String := []
  formatted : List String := []
deriving Repr, Inhabited

namespace Memory

/-- Sets the text of a file in a list ordered by path. -/
def insertFile (path content : String) : List (String × String) → List (String × String)
  | [] => [(path, content)]
  | (p, old) :: rest =>
      if Path.same p path then (p, content) :: rest
      else if Path.lt path p then (path, content) :: (p, old) :: rest
      else (p, old) :: insertFile path content rest

/-- Adds a directory to a list ordered by path. -/
def insertDirectory (path : String) : List String → List String
  | [] => [path]
  | p :: rest =>
      if Path.same p path then p :: rest
      else if Path.lt path p then path :: p :: rest
      else p :: insertDirectory path rest

/-- The text of a file. -/
def get? (memory : Memory) (path : String) : Option String :=
  (memory.files.find? fun entry => Path.same entry.1 path).map (·.2)

/-- Writes a file. -/
def write (memory : Memory) (path content : String) : Memory :=
  { memory with files := insertFile path content memory.files }

/-- Notes that a path went through a formatting hook. -/
def noteFormatted (memory : Memory) (path : String) : Memory :=
  { memory with formatted := memory.formatted ++ [path] }

/-- The operations of the file system. -/
def system : System (StateM Memory) where
  ensureDirectory path := do
    modify fun memory =>
      { memory with directories := insertDirectory path memory.directories }
    return .ok ()
  write path content := do
    modify fun memory => memory.write path content
    return .ok ()
  read path := do
    return .ok ((← get).get? path)
  isFile path := do
    return ((← get).get? path).isSome
  formatPhp path content := do
    modify (·.noteFormatted path)
    return .ok content
  formatTypeScript path content := do
    modify (·.noteFormatted path)
    return .ok content

end Memory

end RestPlugin.Files
