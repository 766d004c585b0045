/-!
# Texts

A text is a list of characters.  String literals stand for their characters, so a rendered
fragment is written as a plain concatenation and reasoned about as a list.

* `Text.lines`, `Text.ofLines` — cutting at line feeds and putting the lines together again;
  `ofLines_lines` says that nothing is lost.
* `Text.after?` — the rest behind a fixed beginning; `eq_append_of_after?` pins it down.
* `Text.cutAt?` — the first occurrence of a fixed piece.
-/

set_option autoImplicit false

namespace EntityScaffold

abbrev Text := List Char

instance : Coe String Text := ⟨String.toList⟩

namespace Text

/-- What is said of all characters of a text is decided by looking at these alone. -/
instance (priority := 2000) decidableForallChar (t : Text) (p : Char → Prop) [DecidablePred p] :
    Decidable (∀ c ∈ t, p c) :=
  List.decidableBAll p t

/-- As `decidableForallChar`, for a character that may be missing. -/
instance (priority := 2000) decidableForallSomeChar (o : Option Char) (p : Char → Prop)
    [DecidablePred p] : Decidable (∀ c ∈ o, p c) :=
  match o with
  | none => isTrue (by simp)
  | some c => decidable_of_iff (p c) (by simp)

/-- The rest of `t` behind `p`, if `t` begins with `p`. -/
def after? : Text → Text → Option Text
  | [], t => some t
  | _ :: _, [] => none
  | c :: p, d :: t => if c = d then after? p t else none

theorem eq_append_of_after? {p t r : Text} (h : after? p t = some r) : t = p ++ r := by
  fun_induction after? p t with
  | case1 => simpa using h
  | case2 => simp at h
  | case3 p c t ih => simp [ih h]
  | case4 => simp at h

theorem after?_append (p r : Text) : after? p (p ++ r) = some r := by
  induction p with
  | nil => rfl
  | cons c p ih => simpa [after?] using ih

/-- Whether `t` begins with `p`. -/
def startsWith (p t : Text) : Bool := (after? p t).isSome

/-- What stands before and behind the first occurrence of `p`. -/
def cutAt? (p : Text) : Text → Option (Text × Text)
  | [] => if p = [] then some ([], []) else none
  | c :: t =>
    match after? p (c :: t) with
    | some r => some ([], r)
    | none => (cutAt? p t).map fun (before, behind) => (c :: before, behind)

/-- The pieces between the occurrences of the character `s`; one more than there are of it. -/
def splitAt (s : Char) : Text → List Text
  | [] => [[]]
  | c :: t =>
    if c = s then [] :: splitAt s t
    else match splitAt s t with
      | [] => [[c]]
      | piece :: more => (c :: piece) :: more

/-- The pieces put together, with `s` between neighbours. -/
def joinWith (s : Text) : List Text → Text
  | [] => []
  | [piece] => piece
  | piece :: more => piece ++ s ++ joinWith s more

theorem splitAt_ne_nil (s : Char) (t : Text) : splitAt s t ≠ [] := by
  cases t with
  | nil => simp [splitAt]
  | cons c t => simp only [splitAt]; split <;> (try split) <;> simp

theorem joinWith_splitAt (s : Char) (t : Text) : joinWith [s] (splitAt s t) = t := by
  induction t with
  | nil => rfl
  | cons c t ih =>
    simp only [splitAt]
    cases h : splitAt s t with
    | nil => exact absurd h (splitAt_ne_nil s t)
    | cons piece more =>
      rw [h] at ih
      split
      · rename_i hc; simp [joinWith, ← ih, hc]
      · cases more <;> simp_all [joinWith]

/-- The lines of a text, without their line feeds. -/
def lines (t : Text) : List Text := splitAt '\n' t

/-- The lines put together, with a line feed between neighbours. -/
def ofLines (ls : List Text) : Text := joinWith ['\n'] ls

theorem ofLines_lines (t : Text) : ofLines (lines t) = t := joinWith_splitAt '\n' t

/-- How often `c` occurs. -/
def countChar (c : Char) (t : Text) : Nat := t.countP (· == c)

/-- `t` without the `c`s at its end. -/
def dropEndWhile (p : Char → Bool) (t : Text) : Text := (t.reverse.dropWhile p).reverse

/-- `t` without the characters of `p` at either end. -/
def trimWhile (p : Char → Bool) (t : Text) : Text := dropEndWhile p (t.dropWhile p)

/-- A text as a `String`, for printing. -/
def toString (t : Text) : String := String.ofList t

/-- The decimal digits of a number. -/
def ofNat (n : Nat) : Text := (Nat.repr n).toList

/-- A number's text, with a minus sign if it is negative. -/
def ofInt : Int → Text
  | .ofNat n => ofNat n
  | .negSucc n => '-' :: ofNat (n + 1)

/-- `t` filled up with spaces at its end to `width` characters. -/
def padEnd (width : Nat) (t : Text) : Text := t ++ List.replicate (width - t.length) ' '

/-- `t` filled up with spaces at its beginning to `width` characters. -/
def padStart (width : Nat) (t : Text) : Text := List.replicate (width - t.length) ' ' ++ t

/-- Order by the first differing character, a beginning before what it begins. -/
def before : Text → Text → Bool
  | _, [] => false
  | [], _ :: _ => true
  | c :: s, d :: t => if c = d then before s t else c.toNat < d.toNat

section

variable {α : Type} (le : α → α → Bool)

/-- The elements with one more in front of the first that it may precede. -/
def insertSorted (x : α) : List α → List α
  | [] => [x]
  | y :: ys => if le x y then x :: y :: ys else y :: insertSorted x ys

/-- The elements in order; those that may precede each other stay as they were. -/
def sortBy (xs : List α) : List α := xs.foldr (insertSorted le) []

variable {le}

theorem mem_insertSorted {x y : α} {ys : List α} :
    x ∈ insertSorted le y ys ↔ x = y ∨ x ∈ ys := by
  induction ys with
  | nil => simp [insertSorted]
  | cons z zs ih =>
    rw [insertSorted]
    split
    · exact List.mem_cons
    · rw [List.mem_cons, ih, List.mem_cons, or_left_comm]

theorem mem_sortBy {x : α} {xs : List α} : x ∈ sortBy le xs ↔ x ∈ xs := by
  induction xs with
  | nil => rfl
  | cons y ys ih =>
    rw [List.mem_cons, ← ih]
    exact mem_insertSorted

end

/-- Texts in ascending order, equal ones kept. -/
def sort (ts : List Text) : List Text := sortBy (fun a b => !before b a) ts

/-- A list without the later of equal elements. -/
def distinct {α : Type} [BEq α] (xs : List α) : List α :=
  xs.foldl (fun seen x => if seen.contains x then seen else seen ++ [x]) []

end Text

end EntityScaffold
