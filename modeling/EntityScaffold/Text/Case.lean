import EntityScaffold.Text.CaseTable
import EntityScaffold.Text.Word

/-!
# Letter case

Lower and upper case of whole texts.  ASCII letters map to ASCII letters
(`lowerChar_of_ascii`, `upperChar_of_ascii`); every other character goes through the tables.
A capital sigma at the end of a word becomes a final sigma.
-/

set_option autoImplicit false

namespace EntityScaffold.Text

/-- The image of a code point under the runs of a table. -/
def imageIn (runs : List (Nat × Nat × Nat × Nat)) (n : Nat) : Option Nat :=
  (runs.find? fun (first, last, stride, _) =>
    first ≤ n && n ≤ last && (n - first) % stride == 0).map
    fun (first, _, _, image) => image + (n - first)

def asciiLower (c : Char) : Char :=
  if isAsciiUpper c then Char.ofNat (c.toNat + 32) else c

def asciiUpper (c : Char) : Char :=
  if isAsciiLower c then Char.ofNat (c.toNat - 32) else c

/-- The lower case of a character that stands alone. -/
def lowerChar (c : Char) : Text :=
  if c.toNat < 0x80 then [asciiLower c]
  else if c.toNat = 0x130 then ['i', Char.ofNat 0x307]
  else match imageIn lowerRuns c.toNat with
    | some n => [Char.ofNat n]
    | none => [c]

/-- The upper case of a character: one, two or three characters. -/
def upperChar (c : Char) : Text :=
  if c.toNat < 0x80 then [asciiUpper c]
  else match upperSequences.lookup c.toNat with
    | some ns => ns.map Char.ofNat
    | none => match imageIn upperRuns c.toNat with
      | some n => [Char.ofNat n]
      | none => [c]

theorem lowerChar_of_ascii {c : Char} (h : c.toNat < 0x80) : lowerChar c = [asciiLower c] := by
  simp [lowerChar, h]

theorem upperChar_of_ascii {c : Char} (h : c.toNat < 0x80) : upperChar c = [asciiUpper c] := by
  simp [upperChar, h]

def isCaseIgnorable (c : Char) : Bool := inRanges ignorableRanges c.toNat

def isCased (c : Char) : Bool := inRanges casedRanges c.toNat

/-- Whether the first character that is not case-ignorable is a cased one. -/
def meetsCased (t : Text) : Bool :=
  match t.dropWhile isCaseIgnorable with
  | [] => false
  | c :: _ => isCased c

/-- The lower case of a text.  `behind` is what precedes it, nearest character first. -/
def lowerFrom (behind : Text) : Text → Text
  | [] => []
  | c :: t =>
    (if c = 'Σ' then
      if meetsCased behind && !meetsCased t then ['ς'] else ['σ']
    else lowerChar c) ++ lowerFrom (c :: behind) t

/-- The lower case of a text. -/
def lower (t : Text) : Text := lowerFrom [] t

/-- The upper case of a text. -/
def upper (t : Text) : Text := t.flatMap upperChar

theorem lowerFrom_of_ascii (behind t : Text) (h : ∀ c ∈ t, c.toNat < 0x80) :
    lowerFrom behind t = t.map asciiLower := by
  induction t generalizing behind with
  | nil => rfl
  | cons c t ih =>
    have hc : c.toNat < 0x80 := h c (by simp)
    have hs : c ≠ 'Σ' := by rintro rfl; revert hc; decide
    have ht := ih (c :: behind) (fun d hd => h d (by simp [hd]))
    simp [lowerFrom, hs, lowerChar_of_ascii hc, ht]

/-- On ASCII texts lower-casing is character by character. -/
theorem lower_of_ascii {t : Text} (h : ∀ c ∈ t, c.toNat < 0x80) : lower t = t.map asciiLower :=
  lowerFrom_of_ascii [] t h

end EntityScaffold.Text
