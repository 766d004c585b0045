import EntityScaffold.Editing
import EntityScaffold.Storage.Store

/-!
# Classes in the store

Opening, editing and saving the class of an entity.  What the edits record goes to the log, also
if one of them fails.
-/

set_option autoImplicit false

namespace EntityScaffold.Storage

open Text Source

variable {σ α : Type}

/-- The source of a new entity. -/
def newEntity (c : Config) (name : Text) (ns : Option Text) : Task σ Text := do
  Task.record .debug .templates
    ("Rendered entity stub for " ++ Render.stubNamespace c ns ++ "\\" ++ name ++ ".")
  return Render.entityStub c name ns

/-- The class that a source declares. -/
def openClass (source : Text) (path : Path) : Task σ ClassFile := do
  match ClassFile.parse source (some path.text) with
  | .ok f =>
    Task.recordAll [f.parsedRecord]
    return f
  | .error e => throw (.unparsable e)

/-- The class after an edit. -/
def editClass (f : ClassFile) (e : Edit Unit) : Task σ ClassFile := do
  let (result, desk) := e.run { file := f }
  Task.recordAll desk.log
  Task.settle result
  return desk.file

/-- The class after several edits, up to the first that fails. -/
def editClassAll (f : ClassFile) (es : List (Edit Unit)) : Task σ ClassFile :=
  es.foldlM editClass f

end EntityScaffold.Storage
