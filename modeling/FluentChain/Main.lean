import FluentChain.CommandLine

/-!
# The program

Reads the files that the arguments name, runs the command on them, and prints its report.
-/

namespace FluentChain

def readFailure (error : IO.Error) : ReadFailure :=
  match error with
  | .noFileOrDirectory .. => .notFound
  | .inappropriateType .. => .notDirectory
  | .invalidArgument _ _ "name too long" => .nameTooLong
  | error => .other (toString error)

def readEntry (path : String) : IO PathEntry := do
  try
    return .file (← IO.FS.readFile path)
  catch error =>
    try
      return .directory ((← (System.mkFilePath [path]).readDir).toList.map (·.fileName))
    catch _ => return .missing (readFailure error)

/-- What is at some paths, and in the directories among them. -/
def readEntries (paths : List String) : IO (List (String × PathEntry)) := do
  let entries ← paths.mapM fun path => return (path, ← readEntry path)
  let inner := entries.flatMap fun
    | (dir, .directory names) => names.map (Path.join dir)
    | _ => []
  return entries ++ (← inner.mapM fun path => return (path, ← readEntry path))

/-- The paths that a run may read first. -/
def startPaths (args : List String) : List String :=
  match CommandLine.parse? args with
  | some options => options.manifest.toList ++ (if options.paths = [] then ["."] else options.paths)
  | none => []

end FluentChain

open FluentChain in
def main (args : List String) : IO UInt32 := do
  let entries ← readEntries (startPaths args)
  let view : FileView := fun path => (entries.lookup path).getD (.missing .notFound)
  match CommandLine.run view args with
  | .ok report =>
    IO.print report.text
    return 0
  | .error failure =>
    IO.eprint failure.text
    return failure.exitCode.toUInt32
