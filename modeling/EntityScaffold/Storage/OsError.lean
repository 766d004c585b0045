import EntityScaffold.Text.Quoted

/-!
# Errors of the file system
-/

set_option autoImplicit false

namespace EntityScaffold.Storage

open Text

/-- Why an operation on a file is refused. -/
inductive OsCause where
  | notFound
  | exists
  | notADirectory
  | isADirectory
  | nameTooLong
  /-- The end of the path is no name, so nothing can be put there. -/
  | busy
  /-- The path is refused before the system sees it. -/
  | nulInPath
  deriving DecidableEq, Repr

/-- The system's number of a cause. -/
def OsCause.number? : OsCause → Option Nat
  | .notFound => some 2
  | .busy => some 16
  | .exists => some 17
  | .notADirectory => some 20
  | .isADirectory => some 21
  | .nameTooLong => some 36
  | .nulInPath => none

def OsCause.message : OsCause → Text
  | .notFound => "No such file or directory"
  | .exists => "File exists"
  | .notADirectory => "Not a directory"
  | .isADirectory => "Is a directory"
  | .nameTooLong => "File name too long"
  | .busy => "Device or resource busy"
  | .nulInPath => "embedded null byte"

/-- An operation that was refused, with the path it was for, and the second one if there are
two. -/
structure OsError where
  cause : OsCause
  path : Text
  second : Option Text := none
  deriving DecidableEq, Repr

def OsError.message (e : OsError) : Text :=
  match e.cause.number? with
  | none => e.cause.message
  | some number =>
    "[Errno " ++ ofNat number ++ "] " ++ e.cause.message ++ ": " ++ quoted e.path ++
      (match e.second with
        | some path => " -> " ++ quoted path
        | none => [])

end EntityScaffold.Storage
