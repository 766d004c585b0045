import EntityScaffold.Cli.Run

/-!
# The program

Carries out a command line on the files there are.  Every decision is made by `Cli.run`; what is
left is to perform its operations and to show what it tells.
-/

set_option autoImplicit false

namespace EntityScaffold

open Text Storage

/-- The cause of an error, if it is one that a run can go on with. -/
def causeOf? : IO.Error → Option OsCause
  | .noFileOrDirectory .. => some .notFound
  | .alreadyExists .. => some .exists
  | .resourceBusy .. => some .busy
  | .inappropriateType _ code _ => some (if code = 20 then .notADirectory else .isADirectory)
  | .invalidArgument _ 36 _ => some .nameTooLong
  | _ => none

/-- The result of an action on paths; an error that no run can go on with is passed on. -/
def attempted {α : Type} (paths : List Path) (error : OsCause → OsError) (action : IO α) :
    IO (Except OsError α) := do
  if paths.any (·.hasNul) then return .error (error .nulInPath)
  try
    return .ok (← action)
  catch e =>
    match causeOf? e with
    | some cause => return .error (error cause)
    | none => throw e

/-- The result of an action on one path. -/
def attemptedAt {α : Type} (p : Path) (action : IO α) : IO (Except OsError α) :=
  attempted [p] (failAt p) action

def pathName (p : Path) : String := String.ofList p.text

/-- Creates a file that must not be there. -/
def createNew (p : Path) (bytes : Bytes) : IO Unit := do
  let handle ← IO.FS.Handle.mk (pathName p) .writeNew
  handle.write ⟨bytes.toArray⟩

/-- What a path leads to. -/
def kindOfPath (p : Path) : IO (Option Kind) := do
  if p.hasNul then return none
  try
    let place ← IO.FS.realPath (pathName p)
    return some (if ← place.isDir then .directory else .file)
  catch e =>
    match causeOf? e with
    | some .notFound | some .notADirectory => return none
    | _ => throw e

/-- The names in a directory. -/
def namesIn (p : Path) : IO (List Text) := do
  let place ← IO.FS.realPath (pathName p)
  return Text.sort ((← place.readDir).toList.map fun entry => entry.fileName.toList)

/-- A record as it is shown. -/
def recordLine (r : Log.Record) : Text :=
  padEnd 8 r.level.name ++ " │ " ++ r.topic.name ++ " │ " ++ r.message

/-- Performs an operation.  Records below the level are not shown. -/
def perform (least : Log.Level) : (op : Operation) → IO op.Answer
  | .makeDir p => attemptedAt p (IO.FS.createDir (pathName p))
  | .create p bytes => attemptedAt p (createNew p bytes)
  | .write p bytes =>
    attemptedAt p (IO.FS.writeBinFile (pathName p) ⟨bytes.toArray⟩)
  | .rename source target =>
    attempted [source, target] (fun cause => ⟨cause, source.text, some target.text⟩)
      (IO.FS.rename (pathName source) (pathName target))
  | .remove p => attemptedAt p (IO.FS.removeFile (pathName p))
  | .read p => attemptedAt p do return (← IO.FS.readBinFile (pathName p)).toList
  | .kind p => attempted [] (failAt p) (kindOfPath p)
  | .names p => attemptedAt p (namesIn p)
  | .freshName _ name => return temporaryName name (← IO.rand 0 0xffffffff)
  | .say line => IO.println (String.ofList line)
  | .record r => if r.isShownFrom least then IO.eprintln (String.ofList (recordLine r)) else pure ()

/-- Performs a program. -/
def performAll {α : Type} (least : Log.Level) : Program α → IO α
  | .done a => return a
  | .step op next => do performAll least (next (← perform least op))

/-- Carries out a command line and gives its exit code. -/
def runOnFiles (words : List Text) : IO UInt32 := do
  let host : Generation.Host :=
    { owner := ofNat (← IO.rand 0 0xffffffff)
      base := (Path.ofText (← IO.currentDir).toString.toList).parts }
  let (result, _) ← performAll (Cli.logLevel words) ((Cli.run host words).run.run [])
  match result with
  | .ok code => return UInt32.ofNat code.number
  | .error e =>
    IO.eprintln (String.ofList e.message)
    return 1

end EntityScaffold

def main (args : List String) : IO UInt32 :=
  EntityScaffold.runOnFiles (args.map String.toList)
