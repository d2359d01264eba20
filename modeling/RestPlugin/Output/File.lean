import RestPlugin.Path

/-!
# Generated files

A generated file waits in a queue until all of them are written.  Queueing a path again replaces the
file in its old place.
-/

namespace RestPlugin.Output

/-- Whether an existing file is replaced. -/
inductive Overwrite where
  | always
  | ifMissing
deriving DecidableEq, Repr, Inhabited

/-- A generated file.  The path is relative to the plugin, and a header is added on writing. -/
structure File where
  path : String
  content : String
  overwrite : Overwrite := .always
  header : Option String := none
deriving DecidableEq, Repr, Inhabited

/-- The lower-case extension of a file. -/
def File.extension (file : File) : Option String := Path.lowerExtension file.path

/-- Generated files with different paths, in the order in which their paths were first queued. -/
abbrev Queue : Type := List File

namespace Queue

/-- Queues a file. -/
def add (file : File) : Queue → Queue
  | [] => [file]
  | queued :: rest =>
      if Path.same queued.path file.path then file :: rest else queued :: add file rest

/-- The queued file with a path. -/
def get? (path : String) (queue : Queue) : Option File :=
  queue.find? fun file => Path.same file.path path

end Queue

/-- A path below an output directory. -/
def below (directory path : String) : String :=
  Path.join (String.ofList (directory.toList.reverse.dropWhile (· == '/')).reverse) path

end RestPlugin.Output
