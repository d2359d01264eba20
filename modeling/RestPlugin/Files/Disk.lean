import RestPlugin.Files.System
import RestPlugin.Path

/-!
# A model of a disk

A directory tree below a working directory, with path resolution as on a Unix system: every
directory on the way has to exist, `..` goes up, and a trailing separator asks for a directory.
-/

namespace RestPlugin.Files

/-- A resolved place: names below the working directory.  Leading `..` stand for directories above
it, and a leading `/` for the root. -/
abbrev Location : Type := List String

/-- The files with their texts, and the directories below the working directory. -/
structure Disk where
  files : List (Location × String) := []
  directories : List Location := []
deriving Repr, Inhabited

namespace Disk

/-- The longest name of a directory entry, in bytes. -/
def maxName : Nat := 255

/-- The longest path, in bytes. -/
def maxPath : Nat := 4095

/-- Whether a place is a directory.  The working directory, those above it and the root always
exist. -/
def isDirectory (disk : Disk) (location : Location) : Bool :=
  location.all (· == "..") || location == ["/"] || disk.directories.contains location

/-- The text of the file at a place. -/
def fileAt? (disk : Disk) (location : Location) : Option String :=
  (disk.files.find? fun entry => entry.1 == location).map (·.2)

/-- The place above a directory. -/
def above (location : Location) : Location :=
  if location.all (· == "..") then location ++ [".."]
  else if location == ["/"] then location
  else location.dropLast

/-- Follows the parts of a path. -/
def walk (disk : Disk) : Location → List String → Except Fault Location
  | location, [] => .ok location
  | location, part :: rest =>
      if part == "" then walk disk location rest
      else if !disk.isDirectory location then
        .error (if (disk.fileAt? location).isSome then .notDirectory else .notFound)
      else if part == "." then walk disk location rest
      else if part == ".." then walk disk (above location) rest
      else if maxName < part.utf8ByteSize then .error .nameTooLong
      else walk disk (location ++ [part]) rest

/-- Whether a path can only name a directory. -/
def asksDirectory (path : String) : Bool :=
  match (Text.splitOnChar '/' path).reverse with
  | last :: _ :: _ => last == "" || last == "."
  | _ => false

/-- The place a path names, whether or not something is there. -/
def resolve (disk : Disk) (path : String) : Except Fault Location :=
  if path.toList.contains '\x00' then .error .nulByte
  else if path == "" then .error .notFound
  else if maxPath < path.utf8ByteSize then .error .nameTooLong
  else disk.walk (if Path.isAbsolute path then ["/"] else []) (Text.splitOnChar '/' path)

/-- Reads a file. -/
def read (disk : Disk) (path : String) : Except Fault String := do
  let location ← disk.resolve path
  if disk.isDirectory location then .error .isDirectory
  else
    match disk.fileAt? location with
    | none => .error .notFound
    | some content => if asksDirectory path then .error .notDirectory else .ok content

/-- Whether a path names a file. -/
def isFile (disk : Disk) (path : String) : Bool := (disk.read path).toOption.isSome

/-- Sets the text of the file at a place. -/
def putFile (location : Location) (content : String) :
    List (Location × String) → List (Location × String)
  | [] => [(location, content)]
  | (l, old) :: rest =>
      if l == location then (l, content) :: rest
      else (l, old) :: putFile location content rest

/-- Writes a file into an existing directory. -/
def write (disk : Disk) (path content : String) : Except Fault Disk := do
  let location ← disk.resolve path
  if disk.isDirectory location then .error .isDirectory
  else if asksDirectory path then
    .error (if (disk.fileAt? location).isSome then .notDirectory else .isDirectory)
  else .ok { disk with files := putFile location content disk.files }

/-- Makes one directory. -/
def makeDirectory (disk : Disk) (path : String) : Except Fault Disk := do
  let location ← disk.resolve path
  if disk.isDirectory location || (disk.fileAt? location).isSome then .error .alreadyExists
  else .ok { disk with directories := disk.directories ++ [location] }

/-- Whether a path names a directory. -/
def isDirectoryPath (disk : Disk) (path : String) : Bool :=
  match disk.resolve path with
  | .ok location => disk.isDirectory location
  | .error _ => false

/-- The files below the working directory with their relative paths, ordered by path. -/
def listing (disk : Disk) : List (String × String) :=
  let inside := disk.files.filter fun entry =>
    !(entry.1.head? == some "..") && !(entry.1.head? == some "/")
  (inside.map fun entry => (Text.join "/" entry.1, entry.2)).mergeSort
    fun a b => !Path.lt b.1 a.1

/-- Runs a change of the disk that may fail; a failed change leaves it as it was. -/
def attempt (change : Disk → Except Fault Disk) : StateM Disk (Except Fault Unit) := do
  match change (← get) with
  | .ok disk =>
      set disk
      return .ok ()
  | .error fault => return .error fault

/-- Makes one directory unless it is there already. -/
def makeMissing (path : String) : StateM Disk (Except Fault Unit) := do
  match ← attempt (·.makeDirectory path) with
  | .ok () => return .ok ()
  | .error fault => return if (← get).isDirectoryPath path then .ok () else .error fault

/-- Makes a directory and those above it; `fuel` bounds their number.  After a failure the
directories that were made before it stay. -/
def makeDirectories : Nat → String → StateM Disk (Except Fault Unit)
  | 0, _ => return .error .notFound
  | fuel + 1, path => do
      if path == "" then return .ok ()
      match ← makeMissing path with
      | .error .notFound =>
          match Path.parent path with
          | none => return .error .notFound
          | some up =>
              match ← makeDirectories fuel up with
              | .ok () => makeMissing path
              | .error fault => return .error fault
      | result => return result

/-- Makes a directory and those above it. -/
def ensure (path : String) : StateM Disk (Except Fault Unit) :=
  makeDirectories (path.length + 1) path

/-- Writes a file after making the directories above it. -/
def place (path content : String) : StateM Disk (Except Fault Unit) := do
  match Path.parent path with
  | none => attempt (·.write path content)
  | some up =>
      match ← ensure up with
      | .ok () => attempt (·.write path content)
      | .error fault => return .error fault

/-- The operations of the disk. -/
def system : System (StateM Disk) where
  ensureDirectory := ensure
  write := place
  read path := do
    match (← get).read path with
    | .ok content => return .ok (some content)
    | .error .notFound => return .ok none
    | .error fault => return .error fault
  isFile path := do
    return (← get).isFile path
  formatPhp _ content := return .ok content
  formatTypeScript _ content := return .ok content

end Disk

end RestPlugin.Files
