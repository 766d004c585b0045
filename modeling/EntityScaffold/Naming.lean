import EntityScaffold.Text.Case

/-!
# Names

How names of classes, properties and columns are formed from each other, and which names are
accepted.

* `snakeCase` — lower-case words joined by underscores; `snakeWords` are the words.
* `shortName`, `qualify` — the two ends of a qualified class name; `shortName_append` says which end the
  short one is.
* `isIdentifier`, `isClassName`, `isEntityName` — the accepted names.  Each tolerates one line
  feed at the end, as an end-of-line anchor does.
-/

set_option autoImplicit false

namespace EntityScaffold

open Text

/-- An underscore goes before a capital that begins a word: after a lower-case letter or digit,
or after a capital if a lower-case letter follows.  `prev` is the preceding character. -/
def humps (prev : Option Char) : Text → Text
  | [] => []
  | c :: t =>
    let begins := isAsciiUpper c &&
      (prev.any (fun p => isAsciiLower p || isAsciiDigit p) ||
        (prev.any isAsciiUpper && t.head?.any isAsciiLower))
    if begins then '_' :: c :: humps (some c) t else c :: humps (some c) t

/-- The maximal runs of characters of `p`. -/
def runsOf (p : Char → Bool) : Text → List Text
  | [] => []
  | c :: t =>
    if p c then
      match t, runsOf p t with
      | d :: _, run :: more => if p d then (c :: run) :: more else [c] :: run :: more
      | _, more => [c] :: more
    else runsOf p t

def isAlphanumeric (c : Char) : Bool := isAsciiLetter c || isAsciiDigit c

/-- The words of a name, in lower case. -/
def snakeWords (name : Text) : List Text :=
  (runsOf isAlphanumeric (humps none name)).map (·.map asciiLower)

/-- The words of a name joined by underscores: `BlogPost` gives `blog_post`. -/
def snakeCase (name : Text) : Text := joinWith ['_'] (snakeWords name)

/-- The name with its first character in lower case. -/
def lowerFirst : Text → Text
  | [] => []
  | c :: t => lower [c] ++ t

/-- The name with its first character in upper case. -/
def upperFirst : Text → Text
  | [] => []
  | c :: t => upperChar c ++ t

/-- What stands behind the last backslash. -/
def shortName (name : Text) : Text := (name.reverse.takeWhile (· != '\\')).reverse

theorem takeWhile_reverse_of_notMem {t : Text} (h : '\\' ∉ t) (u : Text) :
    (t.reverse ++ u).takeWhile (· != '\\') = t.reverse ++ u.takeWhile (· != '\\') := by
  refine List.takeWhile_append_of_pos fun c hc => ?_
  rw [bne_iff_ne]
  rintro rfl
  exact h (List.mem_reverse.mp hc)

theorem shortName_of_notMem {t : Text} (h : '\\' ∉ t) : shortName t = t := by
  rw [shortName, ← List.append_nil t.reverse, takeWhile_reverse_of_notMem h]
  simp

theorem shortName_append {t : Text} (h : '\\' ∉ t) (ns : Text) :
    shortName (ns ++ ['\\'] ++ t) = t := by
  rw [shortName, List.reverse_append, takeWhile_reverse_of_notMem h, List.reverse_append]
  simp

/-- What stands before the last backslash, if there is one. -/
def namespaceOf? (name : Text) : Option Text :=
  match name.reverse.dropWhile (· != '\\') with
  | [] => none
  | _ :: before => some before.reverse

/-- The name within a namespace, unless it is qualified already. -/
def qualify (name ns : Text) : Text :=
  if name.contains '\\' then name.dropWhile (· == '\\')
  else
    let ns := trimWhile (· == '\\') ns
    if ns = [] then name else ns ++ ['\\'] ++ name

/-- Words that name neither a property nor a class. -/
def reservedWords : List Text := List.map String.toList
  ["__halt_compiler", "abstract", "and", "array", "as", "break", "callable", "case", "catch",
    "class", "clone", "const", "continue", "declare", "default", "die", "do", "echo", "else",
    "elseif", "empty", "enddeclare", "endfor", "endforeach", "endif", "endswitch", "endwhile",
    "enum", "eval", "exit", "extends", "final", "for", "foreach", "function", "global", "goto",
    "if", "implements", "include", "include_once", "instanceof", "insteadof", "interface",
    "isset", "list", "match", "namespace", "new", "or", "print", "private", "protected",
    "public", "readonly", "require", "require_once", "return", "static", "switch", "throw",
    "trait", "try", "unset", "use", "var", "while", "xor", "yield"]

/-- The text without one line feed at its end. -/
def dropFinalLineFeed (t : Text) : Text :=
  if t.getLast? = some '\n' then t.dropLast else t

def isReserved (name : Text) : Bool := reservedWords.contains (lower name)

/-- Whether a name begins with a character of `first` and goes on with characters of `rest`, at
least `least` of them. -/
def hasShape (first rest : Char → Bool) (least : Nat) (name : Text) : Bool :=
  match dropFinalLineFeed name with
  | [] => false
  | c :: t => first c && t.all rest && least ≤ t.length

/-- Names of properties. -/
def isIdentifier (name : Text) : Bool :=
  hasShape isNameStart isAsciiWord 0 name && !isReserved name

/-- Short names of classes. -/
def isClassName (name : Text) : Bool :=
  hasShape isAsciiUpper isAsciiWord 0 name && !isReserved name

/-- Names of entities: two characters or more, and no underscore. -/
def isEntityName (name : Text) : Bool :=
  hasShape isAsciiUpper isAlphanumeric 1 name && !isReserved name

end EntityScaffold
