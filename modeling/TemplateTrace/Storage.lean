import TemplateTrace.Path

/-!
What the program asks of a file system: whether a path leads anywhere, what a file holds, and to
make directories and write files. What goes wrong is worded as by the operating system.
-/

namespace TemplateTrace

inductive FileError
  | notFound
  | alreadyExists
  | notDirectory
  | isDirectory
  | notText
  | other (description : String)
  deriving DecidableEq

namespace FileError

def message : FileError → String
  | notFound => "No such file or directory (os error 2)"
  | alreadyExists => "File exists (os error 17)"
  | notDirectory => "Not a directory (os error 20)"
  | isDirectory => "Is a directory (os error 21)"
  | notText => "stream did not contain valid UTF-8"
  | other description => description

end FileError

class Storage (m : Type → Type) where
  isPresent : String → m Bool
  read : String → m (Except FileError ByteArray)
  /-- Makes a directory where there is nothing yet; what it stands in has to be there. -/
  makeDirectory : String → m (Except FileError Unit)
  /-- Makes the file, or puts the text in the place of what it holds. -/
  write : String → String → m (Except FileError Unit)

namespace Storage

variable {m : Type → Type} [Monad m] [Storage m]

def readText (path : String) : m (Except FileError String) := do
  match ← read path with
  | .error e => return .error e
  | .ok bytes =>
    match String.fromUTF8? bytes with
    | some text => return .ok text
    | none => return .error .notText

/-- Only from a directory does a path go on. -/
def isDirectory (path : String) : m Bool := isPresent (Path.inside path ".")

def ensureDirectory (path : String) : m (Except FileError Unit) := do
  match ← makeDirectory path with
  | .ok () => return .ok ()
  | .error e => if ← isDirectory path then return .ok () else return .error e

/-- Makes the directory. If what it stands in is missing, that is made first; the directories outside
it are given with the nearest first. -/
def ensureWithin (path : String) : List String → m (Except FileError Unit)
  | [] => ensureDirectory path
  | outer :: rest => do
    match ← ensureDirectory path with
    | .error .notFound =>
      match ← ensureWithin outer rest with
      | .ok () => ensureDirectory path
      | .error e => return .error e
    | answer => return answer

/-- Makes the directory and those it stands in, as far as they are missing. The empty path is the
working directory. -/
def makeDirectories (path : String) : m (Except FileError Unit) := do
  if path.isEmpty then return .ok ()
  else ensureWithin path (Path.ancestors path)

end Storage

end TemplateTrace
