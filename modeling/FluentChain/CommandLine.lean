import FluentChain.Check

/-!
# The command line

The command checks the dumps it is given, either as files or as one directory of them, and prints the report.
`CommandLine.run` is the whole command as a function of its arguments and of the files it sees.
-/

namespace FluentChain.CommandLine

structure Options where
  paths : List String := []
  verbose : Bool := false
  manifest : Option String := none
deriving DecidableEq, Repr

namespace Options

/-- A path may not be empty. -/
def addPath? (o : Options) (path : String) : Option Options :=
  if path.isEmpty then none else some { o with paths := o.paths ++ [path] }

/-- The report can be made verbose once. -/
def setVerbose? (o : Options) : Option Options :=
  if o.verbose then none else some { o with verbose := true }

/-- The manifest can be given once. -/
def setManifest? (o : Options) (path : String) : Option Options :=
  if o.manifest.isSome ∨ path.isEmpty then none else some { o with manifest := some path }

end Options

/-- Whether an argument is an option.  A lone hyphen is none. -/
def isOption (arg : String) : Bool := arg.toList.head? == some '-' && arg != "-"

/-- The value in an argument `--manifest=value`. -/
def manifestValue? (arg : String) : Option String :=
  let start := "--manifest=".toList
  if start.isPrefixOf arg.toList then some (String.ofList (arg.toList.drop start.length)) else none

/-- Adds the remaining arguments to the options read so far. -/
def parseFrom? (o : Options) : List String → Option Options
  | [] => some o
  | arg :: rest =>
    if arg = "--" then rest.foldlM Options.addPath? o
    else if arg = "-v" ∨ arg = "--verbose" then do parseFrom? (← o.setVerbose?) rest
    else if arg = "--manifest" then
      match rest with
      | [] => none
      | value :: rest => if isOption value then none else do parseFrom? (← o.setManifest? value) rest
    else match manifestValue? arg with
      | some value => do parseFrom? (← o.setManifest? value) rest
      | none => if isOption arg then none else do parseFrom? (← o.addPath? arg) rest

def parse? (args : List String) : Option Options := parseFrom? {} args

inductive Failure
  | usage
  | manifest (path : String) (error : ManifestError)
  | noDumps (dir : String)
  | notAFile (path : String)
  | check (failure : CheckFailure)

/-- The messages of a failure, from what was being done down to its cause. -/
def Failure.messages : Failure → List String
  | .usage => ["usage: [-v|--verbose] [--manifest roles.json] [dir|package.json|package.yaml]..."]
  | .manifest path (.unreadable file failure) =>
    ["Failed to load manifest " ++ path, (ManifestError.unreadable file failure).message, failure.message]
  | .manifest path error => ["Failed to load manifest " ++ path, error.message]
  | .noDumps dir => ["no package dumps found in " ++ dir]
  | .notAFile path => [path ++ " is not a file"]
  | .check failure => failure.messages

def Failure.exitCode : Failure → Nat
  | .usage => 2
  | _ => 1

/-- The dump files that are checked: those in the directory, if one directory is given or nothing at all, or
else the files given. -/
def dumpFiles (view : FileView) (paths : List String) : Except Failure (List String) :=
  let paths := if paths = [] then ["."] else paths
  let given := match paths.find? (!view.isFile ·) with
    | some path => .error (.notAFile path)
    | none => .ok paths
  match paths with
  | [dir] =>
    match view.list? dir with
    | some names =>
      let files := (names.map (Path.join dir)).filter fun path =>
        view.isFile path && PackageDump.isDumpPath path
      if files = [] then .error (.noDumps dir) else .ok files
    | none => given
  | _ => given

def loadManifest (view : FileView) : Option String → Except Failure Manifest
  | none => .ok .bundled
  | some path => (Manifest.load view path).mapError (.manifest path)

/-- The report that the command prints. -/
def run (view : FileView) (args : List String) : Except Failure Report := do
  match parse? args with
  | none => throw .usage
  | some options =>
    let manifest ← loadManifest view options.manifest
    let files ← dumpFiles view options.paths
    (checkFiles view files manifest options.verbose).mapError .check

/-- A text whose further lines start with `indent`. -/
def indentLines (indent text : String) : String :=
  String.ofList (text.toList.flatMap fun c => if c = '\n' then '\n' :: indent.toList else [c])

/-- How a failure is written: its first message, and then the causes, numbered if there are several. -/
def Failure.text (failure : Failure) : String :=
  match failure.messages with
  | [] => ""
  | [message] => "Error: " ++ message ++ "\n"
  | [message, cause] =>
    "Error: " ++ message ++ "\n\nCaused by:\n    " ++ indentLines "    " cause ++ "\n"
  | message :: causes =>
    "Error: " ++ message ++ "\n\nCaused by:\n" ++ String.join (causes.zipIdx.map fun (cause, i) =>
      "    " ++ toString i ++ ": " ++ indentLines "       " cause ++ "\n")

end FluentChain.CommandLine
