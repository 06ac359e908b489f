import FluentChain.Type.Expression

/-!
# Load errors

Why package dumps do not make a program.
-/

namespace FluentChain

/-- Why a file could not be read. -/
inductive ReadFailure
  | notFound
  | notDirectory
  | isDirectory
  | nameTooLong
  | nulInName
  | other (text : String)
deriving DecidableEq, Repr

def ReadFailure.message : ReadFailure → String
  | .notFound => "No such file or directory (os error 2)"
  | .notDirectory => "Not a directory (os error 20)"
  | .isDirectory => "Is a directory (os error 21)"
  | .nameTooLong => "File name too long (os error 36)"
  | .nulInName => "file name contained an unexpected NUL byte"
  | .other text => text

inductive LoadError
  | unreadable (path : String) (failure : ReadFailure)
  | malformedDump (path : String)
  | badPosition (text : String)
  | badType (error : TypeExprError)
  | conflictingType (type : String)
  | unknownObject (key : String)
  | duplicateObject (key : String)
  | badReceiver (type : String)
  | misplacedVariadic (owner : String)
deriving DecidableEq, Repr

def LoadError.message : LoadError → String
  | .unreadable path failure => "failed to read " ++ path ++ ": " ++ failure.message
  | .malformedDump path => "failed to parse " ++ path
  | .badPosition text =>
    "invalid position `" ++ text ++ "`, expected `line:col` or `file:line:col`"
  | .badType error => error.message
  | .conflictingType type =>
    "type `" ++ type ++ "` is declared twice with different definitions"
  | .unknownObject key => "unknown object `" ++ key ++ "`"
  | .duplicateObject key => "object `" ++ key ++ "` is declared twice"
  | .badReceiver type => "method receiver `" ++ type ++ "` is not a named type"
  | .misplacedVariadic owner => "`...` is only allowed on the last parameter of `" ++ owner ++ "`"

end FluentChain
