import FluentChain.File.Path
import FluentChain.Program.Error

/-!
# Views of files

What a run sees of the files it may read: `FileView` says of every path what is there.  `FileTree` is a view
that is written down in full, as the files and directories below a working directory.
-/

namespace FluentChain

inductive PathEntry
  | file (text : String)
  | directory (names : List String)
  | missing (failure : ReadFailure)
deriving DecidableEq, Repr

abbrev FileView := String → PathEntry

namespace FileView

variable (view : FileView)

def read (path : String) : Except ReadFailure String :=
  match view path with
  | .file text => .ok text
  | .directory _ => .error .isDirectory
  | .missing failure => .error failure

def isFile (path : String) : Bool :=
  match view path with
  | .file _ => true
  | _ => false

/-- The names in a directory, sorted. -/
def list? (path : String) : Option (List String) :=
  match view path with
  | .directory names => some (names.mergeSort fun a b => decide (a ≤ b))
  | _ => none

end FileView

/-- Files, and directories that may be empty, each given by its place.  The directories that a file lies in need
not be listed. -/
structure FileTree where
  files : List (List String × String) := []
  directories : List (List String) := []

namespace FileTree

/-- The most bytes that a path may have. -/
def maxPathBytes : Nat := 4095

/-- The most bytes that a name in a directory may have. -/
def maxNameBytes : Nat := 255

/-- What is at a place.  A directory holds the next name of every place below it. -/
def entryAt (t : FileTree) (place : List String) : PathEntry :=
  match t.files.lookup place with
  | some text => .file text
  | none =>
    let through := (t.files.map (·.1) ++ t.directories).filter place.isPrefixOf
    if place.all Path.isUpward ∨ through ≠ [] then
      .directory ((through.filterMap (·[place.length]?)).filter (!Path.isUpward ·)).eraseDups
    else .missing .notFound

/-- Goes one component on from a place, which must be a directory. -/
def step (t : FileTree) (place : List String) (component : String) : Except ReadFailure (List String) :=
  match t.entryAt place with
  | .missing failure => .error failure
  | .file _ => .error .notDirectory
  | .directory _ =>
    if component.utf8ByteSize > maxNameBytes then .error .nameTooLong else .ok (Path.follow place component)

/-- What a path leads to from the working directory. -/
def view (t : FileTree) : FileView := fun path =>
  if path.isEmpty then .missing .notFound
  else if path.toList.contains '\x00' then .missing .nulInName
  else if path.utf8ByteSize > maxPathBytes then .missing .nameTooLong
  else match (Path.components path).foldlM t.step (Path.start path) with
    | .ok place => t.entryAt place
    | .error failure => .missing failure

/-- The tree of some files and directories that are written in turn, each given by its path.  A file that is
written twice has its last text, and all that a path leads through is a directory. -/
def ofPaths (files : List (String × String)) (directories : List String) : FileTree where
  files := files.reverse.map fun (path, text) => (Path.place path, text)
  directories := files.flatMap (fun (path, _) => (Path.stops path).dropLast) ++ directories.flatMap Path.stops

end FileTree

end FluentChain
