import EntityScaffold.Failure
import EntityScaffold.Log
import EntityScaffold.Storage.Tree

/-!
# Programs of file operations

What a run does to files, as a value: one operation after another, each chosen by the answers to
the earlier ones.  A program can be run alone on a tree (`Program.run`), or one step at a time
between the steps of others (`Operation.run`).

* `Program.run_bind` — running one program after another; programs are a lawful monad.
* `Task` — programs with a state of their own, which may fail and keep the state then.
-/

set_option autoImplicit false

namespace EntityScaffold.Storage

open Text

/-- What a path leads to. -/
inductive Kind where
  | directory
  | file
  deriving DecidableEq, Repr

/-- An operation on files, or something told to the world outside. -/
inductive Operation where
  | makeDir (p : Path)
  /-- Creates a file that must not be there. -/
  | create (p : Path) (bytes : Bytes)
  | write (p : Path) (bytes : Bytes)
  | rename (source target : Path)
  | remove (p : Path)
  | read (p : Path)
  /-- What the path leads to. -/
  | kind (p : Path)
  /-- The names in a directory. -/
  | names (p : Path)
  /-- A name in the directory that no file has, made from a given one. -/
  | freshName (directory : Path) (name : Text)
  /-- Prints a line. -/
  | say (line : Text)
  /-- Adds a record to the log. -/
  | record (r : Log.Record)

/-- The answers to an operation. -/
def Operation.Answer : Operation → Type
  | .makeDir _ | .create .. | .write .. | .rename .. | .remove _ => Except OsError Unit
  | .read _ => Except OsError Bytes
  | .kind _ => Except OsError (Option Kind)
  | .names _ => Except OsError (List Text)
  | .freshName .. => Text
  | .say _ | .record _ => Unit

/-- Something told to the world outside. -/
inductive Event where
  | line (t : Text)
  | record (r : Log.Record)
  deriving DecidableEq, Repr

/-- What operations work on: the files, and what has been told so far. -/
structure World where
  tree : Tree
  events : List Event := []

/-- The error of an operation on a path. -/
def failAt (p : Path) (cause : OsCause) : OsError := { cause := cause, path := p.text }

/-- The answer of an operation that changes files. -/
def World.change (w : World) (p : Path) : Except OsCause Tree → Except OsError Unit × World
  | .ok tree => (.ok (), { w with tree := tree })
  | .error cause => (.error (failAt p cause), w)

/-- What a place holds, as seen by someone who asks what a path leads to. -/
def kindOf : Except OsCause (Place × Option Entry) → Except OsCause (Option Kind)
  | .ok (_, some .directory) => .ok (some .directory)
  | .ok (_, some (.file _)) => .ok (some .file)
  | .ok (_, none) | .error .notFound | .error .notADirectory | .error .nulInPath => .ok none
  | .error cause => .error cause

/-- A name for a file that is written to be moved. -/
def temporaryName (name : Text) (n : Nat) : Text :=
  "." ++ name ++ "." ++ hexDigits 8 n ++ ".tmp"

/-- How many names for such a file there are. -/
def temporaryNames : Nat := 0x100000000

/-- The first of these names from the `n`-th on that is not taken. -/
def freshFrom (taken : List Text) (name : Text) : Nat → Nat → Text
  | 0, n => temporaryName name n
  | fuel + 1, n =>
    if taken.contains (temporaryName name n) then freshFrom taken name fuel (n + 1)
    else temporaryName name n

/-- Carries out an operation. -/
def Operation.run : (op : Operation) → World → op.Answer × World
  | .makeDir p, w => w.change p (w.tree.makeDir p)
  | .create p bytes, w => w.change p (w.tree.create p bytes)
  | .write p bytes, w => w.change p (w.tree.write p bytes)
  | .rename source target, w =>
    match w.tree.rename source target with
    | .ok tree => (.ok (), { w with tree := tree })
    | .error cause =>
      (.error { cause := cause, path := source.text, second := some target.text }, w)
  | .remove p, w => w.change p (w.tree.remove p)
  | .read p, w => ((w.tree.read p).mapError (failAt p), w)
  | .kind p, w => ((kindOf (w.tree.look p)).mapError (failAt p), w)
  | .names p, w => ((w.tree.locate p).map (w.tree.names ·) |>.mapError (failAt p), w)
  | .freshName directory name, w =>
    let taken := match w.tree.locate directory with
      | .ok place => w.tree.names place
      | .error _ => []
    (freshFrom taken name temporaryNames 0, w)
  | .say line, w => ((), { w with events := w.events ++ [.line line] })
  | .record r, w => ((), { w with events := w.events ++ [.record r] })

/-- A program of operations. -/
inductive Program (α : Type) : Type where
  | done (a : α)
  | step (op : Operation) (next : op.Answer → Program α)

namespace Program

variable {α β γ : Type}

/-- One program after another. -/
def bind : Program α → (α → Program β) → Program β
  | .done a, f => f a
  | .step op next, f => .step op fun answer => bind (next answer) f

instance : Monad Program where
  pure := .done
  bind := bind

/-- The program of one operation. -/
def perform (op : Operation) : Program op.Answer := .step op .done

/-- Runs a program alone. -/
def run : Program α → World → α × World
  | .done a, w => (a, w)
  | .step op next, w => run (next (op.run w).1) (op.run w).2

theorem run_bind (p : Program α) (f : α → Program β) (w : World) :
    (p.bind f).run w = (f (p.run w).1).run (p.run w).2 := by
  induction p generalizing w with
  | done a => rfl
  | step op next ih => exact ih _ _

theorem bind_assoc (p : Program α) (f : α → Program β) (g : β → Program γ) :
    (p.bind f).bind g = p.bind fun a => (f a).bind g := by
  induction p with
  | done a => rfl
  | step op next ih =>
    simp only [bind]
    congr 1
    funext answer
    exact ih answer

theorem bind_done (p : Program α) : p.bind .done = p := by
  induction p with
  | done a => rfl
  | step op next ih =>
    simp only [bind]
    congr 1
    funext answer
    exact ih answer

instance : LawfulMonad Program :=
  LawfulMonad.mk' Program bind_done (fun _ _ => rfl) bind_assoc

theorem run_pure (a : α) (w : World) : (pure a : Program α).run w = (a, w) := rfl

theorem run_perform (op : Operation) (w : World) : (perform op).run w = op.run w := rfl

end Program

/-- A program with a state, which may fail.  A failure keeps the state and what has been done to
the files. -/
abbrev Task (σ α : Type) := ExceptT Failure (StateT σ Program) α

namespace Task

variable {σ τ α : Type}

/-- Performs an operation. -/
def perform (op : Operation) : Task σ op.Answer :=
  ExceptT.lift (StateT.lift (Program.perform op))

/-- Fails with an error of the file system. -/
def orOsError : Except OsError α → Task σ α
  | .ok a => return a
  | .error e => throw (.os e)

/-- Performs a task and gives its failure as a result. -/
def attempt (t : Task σ α) : Task σ (Except Failure α) :=
  ExceptT.mk (Except.ok <$> t.run)

/-- The result of an attempt, or its failure. -/
def settle : Except Failure α → Task σ α
  | .ok a => return a
  | .error e => throw e

/-- Performs `last` after a task, whether that fails or not. -/
def andFinally (t : Task σ α) (last : Task σ Unit) : Task σ α := do
  let result ← attempt t
  last
  settle result

/-- Performs a task on a part of the state. -/
def onPart (get : σ → τ) (set : τ → σ → σ) (t : Task τ α) : Task σ α :=
  ExceptT.mk fun s => do
    let (result, part) ← t.run (get s)
    return (result, set part s)

/-- Performs a task with a state of its own that begins with the state and leads back to it. -/
def within (enter : σ → τ) (leave : τ → σ) (t : Task τ α) : Task σ (α × τ) :=
  ExceptT.mk fun s => do
    let (result, inner) ← t.run (enter s)
    return (result.map fun a => (a, inner), leave inner)

def record (level : Log.Level) (topic : Log.Topic) (message : Text) : Task σ Unit :=
  perform (.record ⟨level, topic, message⟩)

def recordAll (rs : List Log.Record) : Task σ Unit := rs.forM fun r => perform (.record r)

def say (line : Text) : Task σ Unit := perform (.say line)

/-- Performs a task and records the time it took.  The program has no clock: every time is
zero. -/
def timed (label : Text) (t : Task σ α) : Task σ α :=
  andFinally t (record .debug .files ("Timer [" ++ label ++ "]: 0.0000 seconds"))

end Task

end EntityScaffold.Storage
