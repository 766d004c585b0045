import EntityScaffold.Text.Case
import EntityScaffold.Naming

/-!
# English plural and singular

A word is inflected by the first rule that fits.  A rule looks at the end of the word (or at its
beginning, for one rule): a kept part, a dropped part, and the ending put in place of the
dropped one.  Letters are compared without regard to case unless the rule says otherwise.

One line feed at the end of a word stays behind the inflected word.
-/

set_option autoImplicit false

namespace EntityScaffold.Inflection

open Text

/-- A letter of a pattern. -/
inductive Letter where
  /-- The letter in either case. -/
  | any (c : Char)
  /-- The letter in exactly this case. -/
  | exactly (c : Char)
  /-- The small letter or its plain capital, and no other sign that counts as it. -/
  | plain (c : Char)
  /-- One of the letters, in either case. -/
  | oneOf (cs : Text)
  /-- A character other than these letters in either case. -/
  | noneOf (cs : Text)

/-- The small letter that a character counts as.  Besides the capitals these are the dotted and
dotless i, the long s and the sign for kelvin. -/
def fold (c : Char) : Char :=
  if c.toNat = 0x130 || c.toNat = 0x131 then 'i'
  else if c.toNat = 0x17f then 's'
  else if c.toNat = 0x212a then 'k'
  else asciiLower c

def Letter.fits : Letter → Char → Bool
  | .any d, c => fold c == d
  | .exactly d, c => c == d
  | .plain d, c => asciiLower c == d
  | .oneOf ds, c => ds.contains (fold c)
  | .noneOf ds, c => !ds.contains (fold c)

abbrev Pattern := List Letter

def Pattern.fits : Pattern → Text → Bool
  | [], [] => true
  | l :: ls, c :: cs => l.fits c && Pattern.fits ls cs
  | _, _ => false

/-- The letters of a word in either case. -/
def letters (w : Text) : Pattern := w.map .any

/-- A rule of inflection. -/
structure Rule where
  /-- The alternatives for the part that stays. -/
  kept : List Pattern
  /-- The alternatives for the part that goes. -/
  dropped : List Pattern
  /-- What takes its place. -/
  ending : Text
  /-- Whether the rule takes the whole word. -/
  whole : Bool := false

/-- The first way in which the end of a word splits into a kept and a dropped part. -/
def Rule.split? (r : Rule) (w : Text) : Option (Text × Text) :=
  (r.kept.flatMap fun k => r.dropped.map fun d => (k, d)).findSome? fun (k, d) =>
    let size := k.length + d.length
    if size ≤ w.length && (!r.whole || size == w.length) then
      let start := w.take (w.length - size)
      let stem := (w.drop (w.length - size)).take k.length
      let rest := w.drop (w.length - d.length)
      if Pattern.fits k stem && Pattern.fits d rest then some (start ++ stem, rest) else none
    else none

/-- The word with the ending of the rule, if the rule fits. -/
def Rule.inflect? (r : Rule) (w : Text) : Option Text :=
  (r.split? w).map fun (stem, _) => stem ++ r.ending

/-- `kept` stays, `dropped` becomes `ending`. -/
def rule (kept dropped : List String) (ending : String) : Rule :=
  ⟨kept.map (letters ·.toList), dropped.map (letters ·.toList), ending, false⟩

/-- As `rule`, for a word of just these letters. -/
def wholeRule (kept dropped : List String) (ending : String) : Rule :=
  { rule kept dropped ending with whole := true }

/-- The word ends in the letter as it stands here and further plain letters in either case. -/
def exactRule (first : Char) (more : String) (ending : String) : Rule :=
  ⟨[[]], [.exactly first :: more.toList.map .plain], ending, false⟩

/-- As `rule`, with a character outside of `cs` as an alternative for the kept part. -/
def afterOther (cs : String) (kept : List String) (dropped : List String) (ending : String) :
    Rule :=
  ⟨[.noneOf cs.toList] :: kept.map (letters ·.toList), dropped.map (letters ·.toList), ending,
    false⟩

/-- Words with one form only. -/
def uncountable : List Text :=
  ["equipment", "fish", "information", "jeans", "money", "rice", "series", "sheep", "species"]

def pluralRules : List Rule :=
  [ rule ["z"] ["ombies"] "ombies", rule ["z"] ["ombie"] "ombies",
    exactRule 'k' "ine" "kine", exactRule 'K' "ine" "Kine",
    exactRule 'c' "ow" "kine", exactRule 'C' "ow" "Kine",
    rule ["m"] ["oves"] "oves", rule ["m"] ["ove"] "oves",
    rule ["s"] ["exes"] "exes", rule ["s"] ["ex"] "exes",
    rule ["c"] ["hildren"] "hildren", rule ["c"] ["hild"] "hildren",
    rule ["h"] ["umans"] "umans", rule ["h"] ["uman"] "umans",
    rule ["m"] ["en"] "en", rule ["m"] ["an"] "en",
    rule ["p"] ["eople"] "eople", rule ["p"] ["erson"] "eople",
    rule ["quiz"] [""] "zes", wholeRule ["oxen"] [""] "", wholeRule ["ox"] [""] "en",
    rule ["m", "l"] ["ice"] "ice", rule ["m", "l"] ["ouse"] "ice",
    rule ["passer"] ["sby", "by"] "sby", rule ["matr", "vert", "ind"] ["ix", "ex"] "ices",
    rule ["x", "ch", "ss", "sh"] [""] "es", afterOther "aeiouy" ["qu"] ["y"] "ies",
    rule ["hive"] [""] "s", rule ["l", "r"] ["f"] "ves", afterOther "f" [] ["fe"] "ves",
    rule [""] ["sis"] "ses", rule ["t", "i"] ["a"] "a", rule ["t", "i"] ["um"] "a",
    rule ["buffal", "potat", "tomat"] ["o"] "oes", rule ["bu"] ["s"] "ses",
    rule ["alias", "status"] [""] "es", rule ["octop", "vir"] ["i"] "i",
    rule ["octop", "vir"] ["us"] "i", wholeRule ["ax", "test"] ["is"] "es",
    rule [""] ["s"] "s" ]

def singularRules : List Rule :=
  [ rule ["z"] ["ombies"] "ombie", exactRule 'k' "ine" "cow", exactRule 'K' "ine" "Cow",
    rule ["m"] ["oves"] "ove", rule ["s"] ["exes"] "ex", rule ["c"] ["hildren"] "hild",
    rule ["h"] ["umans"] "uman", rule ["m"] ["en"] "an", rule ["p"] ["eople"] "erson",
    rule ["database"] ["s"] "", rule ["quiz"] ["zes"] "", rule ["matr"] ["ices"] "ix",
    rule ["vert", "ind"] ["ices"] "ex", rule ["passer"] ["sby"] "by" ]

/-- The rules behind the one that looks at the beginning of the word. -/
def laterSingularRules : List Rule :=
  [ rule ["alias", "status"] ["es", ""] "", rule ["octop", "vir"] ["us", "i"] "us",
    wholeRule ["a"] ["xis", "xes"] "xis", rule ["cris", "test"] ["is", "es"] "is",
    rule ["shoe"] ["s"] "", rule ["o"] ["es"] "", rule ["bus"] ["es", ""] "",
    rule ["m", "l"] ["ice"] "ouse", rule ["x", "ch", "ss", "sh"] ["es"] "",
    rule ["m"] ["ovies"] "ovie", rule ["s"] ["eries"] "eries",
    afterOther "aeiouy" ["qu"] ["ies"] "y", rule ["l", "r"] ["ves"] "f",
    rule ["tive"] ["s"] "", rule ["hive"] ["s"] "", afterOther "f" [] ["ves"] "fe",
    rule ["t"] ["hesis", "heses"] "hesis", rule ["s"] ["ynopsis", "ynopses"] "ynopsis",
    rule ["p"] ["rognosis", "rognoses"] "rognosis",
    rule ["p"] ["arenthesis", "arentheses"] "arenthesis",
    rule ["d"] ["iagnosis", "iagnoses"] "iagnosis", rule ["b"] ["asis", "ases"] "asis",
    rule ["a"] ["nalysis", "nalyses"] "nalysis", rule ["t", "i"] ["a"] "um",
    rule ["n"] ["ews"] "ews", rule ["ss"] [""] "", rule [""] ["s"] "" ]

/-- The beginning `ox` of a word that goes on with `en`, and what follows both. -/
def oxen? (w : Text) : Option Text :=
  if Pattern.fits (letters "oxen") (w.take 4) then some (w.take 2 ++ w.drop 4) else none

/-- The plural of a word. -/
def pluralize (w : Text) : Text :=
  if w = [] || uncountable.contains (lower w) then w
  else
    let stem := dropFinalLineFeed w
    match pluralRules.findSome? (·.inflect? stem) with
    | some plural => plural ++ w.drop stem.length
    | none => if stem = w then w ++ "s" else stem ++ "s\ns"

/-- Whether a word ends in one of the uncountable words, at a word's beginning. -/
def endsUncountable (w : Text) : Bool :=
  uncountable.any fun u =>
    u.length ≤ w.length &&
      Pattern.fits (letters u) (w.drop (w.length - u.length)) &&
      !(w.take (w.length - u.length)).getLast?.any isWord

/-- The singular of a word. -/
def singularize (w : Text) : Text :=
  if endsUncountable w then w
  else
    let stem := dropFinalLineFeed w
    match singularRules.findSome? (·.inflect? stem) with
    | some single => single ++ w.drop stem.length
    | none => match oxen? w with
      | some single => single
      | none => match laterSingularRules.findSome? (·.inflect? stem) with
        | some single => single ++ w.drop stem.length
        | none => w

end EntityScaffold.Inflection
