import EntityScaffold.Storage.Program

/-!
# Reading and writing files

* `ensureDirectory` — a directory with all that lead to it.
* `writeText` — a file, written beside its place and moved there, or in place.
* `readText` — the text of a file, with line feeds for all line ends.
-/

set_option autoImplicit false

namespace EntityScaffold.Storage

open Text

variable {σ α : Type}

/-- What a path leads to. -/
def kindAt (p : Path) : Task σ (Option Kind) := do Task.orOsError (← Task.perform (.kind p))

def isDirectory (p : Path) : Task σ Bool := do return (← kindAt p) = some .directory

def isFile (p : Path) : Task σ Bool := do return (← kindAt p) = some .file

/-- Whether a path leads to anything. -/
def isThere (p : Path) : Task σ Bool := do return (← kindAt p).isSome

/-- Accepts an error of making a directory if the directory is there. -/
def unlessDirectory (p : Path) (e : OsError) : Task σ Unit := do
  if !(← isDirectory p) then throw (.os e)

/-- Makes a directory that may be there, and those that lead to it.  `depth` bounds their
number. -/
def makeDirs (depth : Nat) (p : Path) : Task σ Unit := do
  match ← Task.perform (.makeDir p) with
  | .ok () => return
  | .error e =>
    if e.cause = .notFound then
      match depth with
      | 0 => throw (.os e)
      | depth + 1 =>
        makeDirs depth p.parent
        match ← Task.perform (.makeDir p) with
        | .ok () => return
        | .error e => if e.cause = .notFound then throw (.os e) else unlessDirectory p e
    else unlessDirectory p e

/-- Makes sure that a directory is there. -/
def ensureDirectory (p : Path) : Task σ Unit := do
  makeDirs p.parts.length p
  Task.record .debug .files ("Ensured directory exists: " ++ p.text)

/-- Writes beside the place of a file and moves the result there.  Nothing is left of it if that
fails. -/
def replaceFile (p : Path) (bytes : Bytes) : Task σ Unit := do
  let name : Text ← Task.perform (.freshName p.parent p.name)
  let temporary : Path := { p.parent with parts := p.parent.parts ++ [name] }
  Task.orOsError (← Task.perform (.create temporary []))
  let result ← Task.attempt do
    Task.orOsError (← Task.perform (.write temporary bytes))
    Task.orOsError (← Task.perform (.rename temporary p))
  match result with
  | .ok () => return
  | .error e =>
    if ← isThere temporary then Task.orOsError (← Task.perform (.remove temporary))
    throw e

/-- Writes a file and makes the directories that lead to it.  Gives the number of bytes. -/
def writeText (p : Path) (content : Text) (atomic : Bool) : Task σ Nat := do
  ensureDirectory p.parent
  let bytes := encode content
  if atomic then replaceFile p bytes
  else Task.orOsError (← Task.perform (.write p bytes))
  Task.record .debug .files ("Wrote " ++ ofNat bytes.length ++ " bytes to " ++ p.text)
  return bytes.length

/-- The text of bytes, with line feeds for all line ends. -/
def textOf (bytes : Bytes) : Except Failure Text :=
  ((decode bytes).map plainLineEnds).mapError .undecodable

/-- The text of a file. -/
def readText (p : Path) : Task σ Text := do
  let bytes ← Task.orOsError (← Task.perform (.read p))
  Task.settle (textOf bytes)

/-- The text of a file, or nothing if the file is not there. -/
def readText? (p : Path) : Task σ (Option Text) := do
  match ← Task.perform (.read p) with
  | .ok bytes => return some (← Task.settle (textOf bytes))
  | .error e => if e.cause = .notFound then return none else throw (.os e)

end EntityScaffold.Storage
