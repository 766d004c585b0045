import EntityScaffold.Text.Utf8
import EntityScaffold.Value.Binary64
import EntityScaffold.Value.Calendar

/-!
# Values of plan files

What a plan file holds: atoms, which have no parts, and lists, sets and maps of them.  The entries
of a map keep their order.

* `Atom.same` — which atoms are the same key.
* `Entries.find?` — the value of a key.
* `Entries.put` — an entry in place of one with the same key, or behind all others.
* `Value.text` — the text of a value in a message.
-/

set_option autoImplicit false

namespace EntityScaffold

open Text

/-- A value without parts. -/
inductive Atom where
  | null
  | bool (b : Bool)
  | int (n : Int)
  | float (x : Binary64)
  | text (t : Text)
  | bytes (bs : Bytes)
  | date (d : Date)
  | moment (m : Moment)
  deriving DecidableEq, Repr, Inhabited

namespace Atom

/-- The atom that stands for all that are the same key: a number is one key however it is
written, a truth value is a number, and a moment is its instant. -/
def canonical : Atom → Atom
  | .bool b => .int (if b then 1 else 0)
  | .float x => x.toInt?.elim (.float x) .int
  | .moment m => m.instant?.elim (.moment m) fun seconds =>
      .moment ⟨⟨0, 0, 0⟩, 0, 0, 0, m.microsecond, some seconds⟩
  | a => a

/-- Whether two atoms are the same key. -/
def same (a b : Atom) : Bool := a.canonical = b.canonical

theorem same_self (a : Atom) : same a a = true := by simp [same]

theorem same_comm (a b : Atom) : same a b = same b a := by simp [same, eq_comm]

theorem same_trans {a b c : Atom} (hab : same a b = true) (hbc : same b c = true) :
    same a c = true := by
  simp only [same, decide_eq_true_eq] at *
  exact hab.trans hbc

/-- What kind of value an atom is, in messages. -/
def typeName : Atom → Text
  | .null => "NoneType"
  | .bool _ => "bool"
  | .int _ => "int"
  | .float _ => "float"
  | .text _ => "str"
  | .bytes _ => "bytes"
  | .date _ => "date"
  | .moment _ => "datetime"

/-- How a byte is written between the quotes `q`. -/
def escapeByte (q : Char) (b : UInt8) : Text :=
  if b.toNat < 0x80 then escapeChar q (Char.ofNat b.toNat) else "\\x" ++ hexDigits 2 b.toNat

/-- Bytes between quotes. -/
def quotedBytes (bs : Bytes) : Text :=
  let q := quoteFor (bs.map fun b => Char.ofNat b.toNat)
  'b' :: q :: bs.flatMap (escapeByte q) ++ [q]

/-- The text of an atom inside another value. -/
def inner : Atom → Text
  | .null => "None"
  | .bool b => if b then "True" else "False"
  | .int n => ofInt n
  | .float x => x.text
  | .text t => quoted t
  | .bytes bs => quotedBytes bs
  | .date d => d.inner
  | .moment m => m.inner

/-- The text of an atom in a message. -/
def message : Atom → Text
  | .text t => t
  | .date d => d.text
  | .moment m => m.text
  | a => a.inner

end Atom

/-- The entries of a map, in order; no two have the same key. -/
abbrev Entries (α : Type) := List (Atom × α)

namespace Entries

variable {α : Type}

/-- The entries with one more; an entry with the same key gives its place and its way of writing
the key. -/
def put (es : Entries α) (key : Atom) (a : α) : Entries α :=
  match es with
  | [] => [(key, a)]
  | (k, old) :: more => if k.same key then (k, a) :: more else (k, old) :: put more key a

/-- The value of a key. -/
def find? (es : Entries α) (key : Atom) : Option α :=
  (List.find? (fun e => e.1.same key) es).map (·.2)

/-- The entries of a list; a later one takes the place of an earlier one with its key. -/
def ofList (es : List (Atom × α)) : Entries α := es.foldl (fun es e => put es e.1 e.2) []

theorem find?_put_self (es : Entries α) (key : Atom) (a : α) :
    find? (put es key a) key = some a := by
  induction es with
  | nil => simp [put, find?, Atom.same_self]
  | cons e more ih =>
    by_cases h : e.1.same key = true
    · simp [put, find?, h]
    · simpa [put, find?, h] using ih

theorem find?_put_of_not_same {es : Entries α} {key other : Atom} (a : α)
    (h : key.same other = false) : find? (put es key a) other = find? es other := by
  induction es with
  | nil => simp [put, find?, h]
  | cons e more ih =>
    by_cases hk : e.1.same key = true
    · have ho : e.1.same other = false := by
        cases hc : e.1.same other with
        | false => rfl
        | true =>
          have := Atom.same_trans (Atom.same_comm e.1 key ▸ hk) hc
          simp [h] at this
      simp [put, find?, hk, ho]
    · by_cases ho : e.1.same other = true
      · simp [put, find?, hk, ho]
      · simpa [put, find?, hk, ho] using ih

end Entries

/-- A value of a plan file. -/
inductive Value where
  | atom (a : Atom)
  | list (vs : List Value)
  | set (members : List Atom)
  | map (entries : List (Atom × Value))
  deriving Repr, BEq, Inhabited

namespace Value

@[match_pattern] abbrev null : Value := .atom .null

@[match_pattern] abbrev bool (b : Bool) : Value := .atom (.bool b)

@[match_pattern] abbrev int (n : Int) : Value := .atom (.int n)

@[match_pattern] abbrev float (x : Binary64) : Value := .atom (.float x)

@[match_pattern] abbrev text (t : Text) : Value := .atom (.text t)

@[match_pattern] abbrev bytes (bs : Bytes) : Value := .atom (.bytes bs)

/-- The value of a name in entries. -/
def find? (entries : Entries Value) (name : Text) : Option Value :=
  Entries.find? entries (.text name)

/-- The entries of names. -/
def named (entries : List (Text × Value)) : Entries Value :=
  entries.map fun (name, v) => (.text name, v)

/-- What kind of value it is, in messages. -/
def typeName : Value → Text
  | .atom a => a.typeName
  | .list _ => "list"
  | .set _ => "set"
  | .map _ => "dict"

/-- The text of a set inside another value. -/
def innerSet (members : List Atom) : Text :=
  if members.isEmpty then "set()" else "\x7b" ++ joinWith ", " (members.map Atom.inner) ++ "\x7d"

mutual

/-- The text of a value inside another one. -/
def inner : Value → Text
  | .atom a => a.inner
  | .list vs => "[" ++ innerList vs ++ "]"
  | .set members => innerSet members
  | .map es => "\x7b" ++ innerEntries es ++ "\x7d"

/-- The texts of values, with commas between them. -/
def innerList : List Value → Text
  | [] => []
  | [v] => inner v
  | v :: vs => inner v ++ ", " ++ innerList vs

/-- The texts of entries, with commas between them. -/
def innerEntries : List (Atom × Value) → Text
  | [] => []
  | [(k, v)] => k.inner ++ ": " ++ inner v
  | (k, v) :: es => k.inner ++ ": " ++ inner v ++ ", " ++ innerEntries es

end

/-- The text of a value in a message: a text as it is, anything else as it stands inside
another value or in figures. -/
def message : Value → Text
  | .atom a => a.message
  | v => inner v

end Value

end EntityScaffold
