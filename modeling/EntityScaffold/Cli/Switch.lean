import EntityScaffold.Text.Digit

/-!
# Switches of a command line

A command line is a list of words.  A switch is a word that begins with a hyphen: a letter behind
one hyphen, or a name behind two.  Letters may share a hyphen, a name may be cut short as long as
one switch only begins like that, and an argument may be attached to a name by an equals sign.
Behind the word `--` nothing is a switch.

* `classify` — what each word is.
* `walk` — the effects of the switches in their order, and the operand among them.
-/

set_option autoImplicit false

namespace EntityScaffold.Cli

open Text

/-- Why a command line is not carried out. -/
inductive Stop where
  | help
  | version
  | misuse
  deriving DecidableEq, Repr

/-- The argument of a switch. -/
inductive Argument where
  | text (t : Text)
  /-- A separator attached to the switch: an argument of no words. -/
  | empty
  deriving DecidableEq, Repr

/-- The argument that is attached to a switch. -/
def Argument.attached (t : Text) : Argument := if t = "--" then .empty else .text t

/-- What a switch does to the settings. -/
inductive Effect (σ : Type) where
  | set (f : σ → σ)
  /-- Takes an argument. -/
  | take (f : Argument → σ → σ)
  | stop (reason : Stop)

/-- A switch, by all its names. -/
structure Switch (σ : Type) where
  names : List Text
  effect : Effect σ

/-- What a word is. -/
inductive Word (σ : Type) where
  | plain
  | separator
  /-- A switch, if it is a known one, with what is attached to it. -/
  | switch (known : Option (Switch σ)) (attached : Option Text)

section

variable {σ : Type} (switches : List (Switch σ))

/-- The switch of a name. -/
def switchOf? (name : Text) : Option (Switch σ) := switches.find? (·.names.contains name)

/-- The switches that a name may have been cut short from, each as often as it has such names. -/
def extensions (name : Text) : List (Switch σ) :=
  switches.flatMap fun s => (s.names.filter (startsWith name)).map fun _ => s

/-- A name and what an equals sign attaches to it. -/
def attachment (word : Text) : Text × Option Text :=
  match cutAt? "=" word with
  | some (name, attached) => (name, some attached)
  | none => (word, none)

/-- Whether a word is a number with a minus sign; a line feed may follow it. -/
def isNegativeNumber (word : Text) : Bool :=
  match word with
  | '-' :: number =>
    let number := if number.getLast? = some '\n' then number.dropLast else number
    match splitAt '.' number with
    | [digits] => digits != [] && digits.all isDigit
    | [digits, places] => digits.all isDigit && places != [] && places.all isDigit
    | _ => false
  | _ => false

/-- What a word is that begins with a hyphen and is not as a whole the name of a switch; nothing
if it may be cut short from several names. -/
def classifyOther (word : Text) : Option (Word σ) :=
  let (name, attached) := attachment word
  match (if attached.isSome then switchOf? switches name else none) with
  | some s => some (.switch (some s) attached)
  | none =>
    if startsWith "--" word then
      match extensions switches name with
      | [s] => some (.switch (some s) attached)
      | [] => some (if word.contains ' ' then .plain else .switch none attached)
      | _ => none
    else
      match switchOf? switches (word.take 2) with
      | some s => some (.switch (some s) (some (word.drop 2)))
      | none =>
        some (if isNegativeNumber word || word.contains ' ' then .plain
          else .switch none attached)

/-- What a word is before any separator. -/
def classifyWord (word : Text) : Option (Word σ) :=
  if !startsWith "-" word || word.length = 1 then some .plain
  else match switchOf? switches word with
    | some s => some (.switch (some s) none)
    | none => classifyOther switches word

/-- The words, each with what it is. -/
def classify : List Text → Except Stop (List (Text × Word σ))
  | [] => .ok []
  | word :: more =>
    if word = "--" then .ok ((word, .separator) :: more.map fun w => (w, .plain))
    else match classifyWord switches word with
      | none => .error .misuse
      | some kind => (classify more).map ((word, kind) :: ·)

/-- What a word's switches do: their effects in order, and the last one's if that one takes its
argument from the next word. -/
structure Actions (σ : Type) where
  effects : List (Effect σ) := []
  pending : Option (Argument → σ → σ) := none

/-- The actions of a letter with what is attached to it: its argument if it takes one, else more
letters. -/
def letterActions (e : Effect σ) : Text → Option (Actions σ)
  | [] =>
    match e with
    | .take f => some { pending := some f }
    | e => some { effects := [e] }
  | c :: more =>
    match e with
    | .take f => some { effects := [.set (f (.attached (c :: more)))] }
    | e => do
      let s ← switchOf? switches ['-', c]
      let a ← letterActions s.effect more
      return { a with effects := e :: a.effects }

/-- The actions of a switch; nothing may be attached to one that takes no argument, unless it is
a letter. -/
def actions (s : Switch σ) (isLetter : Bool) (attached : Option Text) : Option (Actions σ) :=
  match s.effect, attached with
  | .take f, none => some { pending := some f }
  | .take f, some t => some { effects := [.set (f (.attached t))] }
  | e, none => some { effects := [e] }
  | _, some [] => none
  | e, some letters => if isLetter then letterActions switches e letters else none

/-- Carries out effects, up to one that stops. -/
def perform (effects : List (Effect σ)) (a : σ) : Except Stop σ :=
  effects.foldlM (fun a e => match e with
    | .set f => .ok (f a)
    | .take _ => .ok a
    | .stop reason => .error reason) a

/-- What a word that is no switch is for. -/
inductive Operand (σ : Type) where
  | none
  /-- One word. -/
  | one (f : Text → σ → σ)
  /-- A word and all words behind it. -/
  | rest

/-- What has been read off a command line. -/
structure Reading (σ : Type) where
  settings : σ
  /-- Whether the operand has been given. -/
  hasOperand : Bool := false
  /-- The words from the operand on, if it takes them all. -/
  rest : List Text := []
  /-- Whether there are words that mean nothing. -/
  hasLeftover : Bool := false

/-- Takes a word as the operand. -/
def Reading.withOperand (r : Reading σ) (f : Text → σ → σ) (word : Text) : Reading σ :=
  { r with settings := f word r.settings, hasOperand := true }

/-- Takes all words from the operand on. -/
def Reading.withRest (r : Reading σ) (words : List (Text × Word σ)) : Reading σ :=
  { r with hasOperand := true, rest := words.map (·.1) }

/-- Takes a word that means nothing. -/
def Reading.withLeftover (r : Reading σ) : Reading σ := { r with hasLeftover := true }

/-- The words behind a separator that comes first. -/
def dropSeparator : List (Text × Word σ) → List (Text × Word σ)
  | (_, .separator) :: more => more
  | words => words

theorem length_dropSeparator_le (words : List (Text × Word σ)) :
    (dropSeparator words).length ≤ words.length := by
  unfold dropSeparator
  split <;> simp

/-- Reads the words off one after another.  A separator belongs to an operand next to it. -/
def walk (operand : Operand σ) (r : Reading σ) :
    List (Text × Word σ) → Except Stop (Reading σ)
  | [] => .ok r
  | (_, .switch none ..) :: more => walk operand r.withLeftover more
  | (word, .switch (some s) attached) :: more =>
    match actions switches s (!startsWith "--" word) attached with
    | none => .error .misuse
    | some a => do
      match a.pending with
      | none =>
        let settings ← perform a.effects r.settings
        walk operand { r with settings := settings } more
      | some f =>
        match more with
        | (argument, .plain) :: later =>
          let settings ← perform a.effects r.settings
          walk operand { r with settings := f (.text argument) settings } later
        | _ => .error .misuse
  | (word, .plain) :: more =>
    match r.hasOperand, operand with
    | false, .one f =>
      have := length_dropSeparator_le more
      walk operand (r.withOperand f word) (dropSeparator more)
    | false, .rest => .ok (r.withRest ((word, .plain) :: more))
    | _, _ => walk operand r.withLeftover more
  | (word, .separator) :: more =>
    match r.hasOperand, operand with
    | false, .one f =>
      match more with
      | (next, .plain) :: later => walk operand (r.withOperand f next) later
      | others => walk operand r.withLeftover others
    | false, .rest =>
      if more.isEmpty then .ok r.withLeftover else .ok (r.withRest ((word, .separator) :: more))
    | _, _ => walk operand r.withLeftover more
termination_by words => words.length

/-- Reads a command line. -/
def read (operand : Operand σ) (settings : σ) (words : List Text) : Except Stop (Reading σ) := do
  walk switches operand { settings := settings } (← classify switches words)

end

end EntityScaffold.Cli
