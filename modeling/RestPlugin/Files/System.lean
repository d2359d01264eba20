/-!
# File systems

What the generator needs of a file system, as a record of operations in some monad.  The same code
then runs on the real disk and on models of one, also on a model whose operations fail.
-/

namespace RestPlugin.Files

/-- Why a file operation failed. -/
inductive Fault where
  | notFound
  | notDirectory
  | isDirectory
  | alreadyExists
  | nameTooLong
  | nulByte
  | other (text : String)
deriving DecidableEq, Repr, Inhabited

/-- The system's text for a fault. -/
def Fault.message : Fault → String
  | notFound => "No such file or directory (os error 2)"
  | notDirectory => "Not a directory (os error 20)"
  | isDirectory => "Is a directory (os error 21)"
  | alreadyExists => "File exists (os error 17)"
  | nameTooLong => "File name too long (os error 36)"
  | nulByte => "file name contained an unexpected NUL byte"
  | other text => text

/-- The operations of a file system.  Reading a file that does not exist gives nothing.  The two
formatting hooks see the text of each source file before it is written. -/
structure System (m : Type → Type) where
  ensureDirectory : String → m (Except Fault Unit)
  write : String → String → m (Except Fault Unit)
  read : String → m (Except Fault (Option String))
  isFile : String → m Bool
  formatPhp : String → String → m (Except Fault String)
  formatTypeScript : String → String → m (Except Fault String)

end RestPlugin.Files
