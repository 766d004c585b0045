import EntityScaffold.Config
import EntityScaffold.Storage.Files

/-!
# The store of entity files

Reads, writes, lists and locks the files of entities.  What has been written is kept in the
state.  A lock is a file beside the entity's; it guards against other runs.
-/

set_option autoImplicit false

namespace EntityScaffold.Storage

open Text

/-- The entity files of a configuration. -/
structure Store where
  config : Config
  /-- What a lock file of this run holds. -/
  owner : Text

/-- The paths written so far. -/
abbrev Written := List Path

namespace Store

variable {σ α : Type}

/-- The file of an entity. -/
def pathFor (s : Store) (entity : Text) : Path :=
  s.config.entityDir.child (shortName entity ++ ".php")

/-- The file of an entity's repository. -/
def repositoryPathFor (s : Store) (entity : Text) : Path :=
  s.config.repositoryDir.child (shortName entity ++ "Repository.php")

/-- The lock file of an entity. -/
def lockPathFor (s : Store) (entity : Text) : Path :=
  let p := s.pathFor entity
  p.withName (p.name ++ ".lock")

def hasEntity (s : Store) (entity : Text) : Task σ Bool := isFile (s.pathFor entity)

/-- The source of an entity, or nothing if it is not there. -/
def read? (s : Store) (entity : Text) : Task σ (Option Text) := readText? (s.pathFor entity)

/-- Writes a file, unless nothing is to be written at all. -/
def save (s : Store) (p : Path) (content : Text) : Task Written Path := do
  if s.config.dryRun then
    Task.record .info .storage ("[dry-run] would write " ++ p.text)
  else
    let _ ← writeText p content s.config.atomicWrites
    modify fun written => written ++ [p]
    Task.record .info .storage ("Saved " ++ p.text)
  return p

def write (s : Store) (entity content : Text) : Task Written Path :=
  s.save (s.pathFor entity) content

/-- Writes a repository, unless there is one. -/
def writeRepository (s : Store) (entity content : Text) : Task Written (Option Path) := do
  let p := s.repositoryPathFor entity
  if ← isThere p then
    Task.record .info .storage ("Repository already exists: " ++ p.text)
    return none
  else return some (← s.save p content)

/-- Whether a file may be an entity's: it ends in `.php` and is not hidden. -/
def isEntityFileName (name : Text) : Bool :=
  startsWith (".php" : Text).reverse name.reverse && !startsWith "." name

/-- The short names of all entities, in order. -/
def entities (s : Store) : Task σ (List Text) := do
  let directory := s.config.entityDir
  if !(← isDirectory directory) then return []
  let names ← Task.orOsError (← Task.perform (.names directory))
  let paths := (names.filter isEntityFileName).map fun name =>
    { directory with parts := directory.parts ++ [name] }
  let files ← paths.filterM isFile
  return Text.sort (files.map Path.stem)

/-- Whether entities are locked at all. -/
def locks (s : Store) : Bool := s.config.lockFiles && !s.config.dryRun

/-- Takes the lock of an entity. -/
def acquire (s : Store) (entity : Text) : Task σ Unit := do
  let lock := s.lockPathFor entity
  ensureDirectory lock.parent
  match ← Task.perform (.create lock (encode s.owner)) with
  | .ok () => Task.record .debug .storage ("Acquired lock " ++ lock.text)
  | .error e =>
    if e.cause = .exists then throw (.locked entity lock.text) else throw (.os e)

/-- Gives the lock of an entity back; it may be gone. -/
def release (s : Store) (entity : Text) : Task σ Unit := do
  let lock := s.lockPathFor entity
  match ← Task.perform (.remove lock) with
  | .ok () => pure ()
  | .error e => if e.cause = .notFound then pure () else throw (.os e)
  Task.record .debug .storage ("Released lock " ++ lock.text)

/-- Performs a task while the entity is locked. -/
def withLock (s : Store) (entity : Text) (t : Task σ α) : Task σ α := do
  if s.locks then
    s.acquire entity
    Task.andFinally t (s.release entity)
  else t

end Store

end EntityScaffold.Storage
