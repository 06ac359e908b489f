/-!
# Paths

A path is a text of components with slashes between them.  The extension of a path is that of its last
component which is a name: empty components and `.` do not count, and `..` is no name.

A place is what a path leads to, written as the names that lead there from the working directory.  A place above
the working directory starts with a `..` for each step up, and one that an absolute path leads to with `/`.
-/

namespace FluentChain.Path

def components (path : String) : List String := (path.toList.splitOn '/').map String.ofList

/-- Whether a component leads nowhere. -/
def isIdle (component : String) : Bool := component.isEmpty || component == "."

def fileName? (path : String) : Option String := do
  let last ← ((components path).filter (!isIdle ·)).getLast?
  if last = ".." then none else return last

/-- What follows the last dot of a name, if something stands before the dot. -/
def extensionOfName? (name : String) : Option String :=
  let reversed := name.toList.reverse
  match reversed.dropWhile (· ≠ '.') with
  | _ :: _ :: _ => some (String.ofList (reversed.takeWhile (· ≠ '.')).reverse)
  | _ => none

def extension? (path : String) : Option String := fileName? path >>= extensionOfName?

/-- The path of an entry of a directory. -/
def join (dir name : String) : String :=
  if dir.toList.getLast? = some '/' then dir ++ name else dir ++ "/" ++ name

/-- Whether a component of a place is no name. -/
def isUpward (component : String) : Bool := component == ".." || component == "/"

/-- The place where a path starts. -/
def start (path : String) : List String := if path.toList.head? = some '/' then ["/"] else []

/-- The place above a place.  Nothing is above `/`. -/
def parent (place : List String) : List String :=
  match place.getLast? with
  | some "/" => place
  | some ".." => place ++ [".."]
  | some _ => place.dropLast
  | none => [".."]

/-- Goes one component of a path on from a place. -/
def follow (place : List String) (component : String) : List String :=
  if isIdle component then place
  else if component = ".." then parent place
  else place ++ [component]

/-- The places that a path leads through, the last of which it leads to. -/
def stops (path : String) : List (List String) :=
  let parts := components path
  (List.range (parts.length + 1)).map fun n => (parts.take n).foldl follow (start path)

/-- The place that a path leads to if everything it leads through is a directory. -/
def place (path : String) : List String := (components path).foldl follow (start path)

end FluentChain.Path
