/-!
Paths as texts whose steps are parted by slashes: the steps, the path of a name inside a directory,
and the paths of the directories that a path leads through.
-/

namespace TemplateTrace

namespace Path

def split (text : List Char) : List (List Char) :=
  text.foldr (fun c found => if c = '/' then [] :: found else found.modifyHead (c :: ·)) [[]]

def steps (path : String) : List String := (split path.toList).map String.ofList

def isAbsolute (path : String) : Bool := path.toList.head? = some '/'

/-- A step that leads nowhere else. -/
def stays (step : String) : Bool := step = "" || step = "."

def withoutSlashes (path : String) : String :=
  match (path.toList.reverse.dropWhile (· = '/')).reverse with
  | [] => path
  | rest => String.ofList rest

def inside (directory name : String) : String :=
  if directory.isEmpty || directory.endsWith "/" then directory ++ name
  else directory ++ "/" ++ name

/-- The paths through all the steps, through all but the last, and so on. The steps are given with
the last one first. -/
def shortened (absolute : Bool) : List String → List String
  | [] => []
  | step :: outer =>
    ((if absolute then "/" else "") ++ "/".intercalate (step :: outer).reverse) ::
      shortened absolute outer

/-- The paths of the directories that a path leads through, the nearest to its end first. -/
def ancestors (path : String) : List String :=
  shortened (isAbsolute path) ((steps path).filter (!stays ·)).reverse.tail

end Path

end TemplateTrace
