import EntityScaffold.Text.Basic

/-!
# Close matches

How alike two texts are: twice the number of matched characters over the number of all
characters.  Matched is the longest common piece, then what matches in front of it and behind it,
and so on.  Of pieces of the same length the one that begins first in the candidate counts, then
the one that begins first in the word.

In a word of two hundred characters or more, a character that makes up more than a hundredth of
the word (and one more) is not looked for; it only lengthens a piece found.
-/

set_option autoImplicit false

namespace EntityScaffold.Text

/-- A common piece: where it begins in the candidate and in the word, and its length. -/
structure CommonPiece where
  start : Nat
  other : Nat
  size : Nat
  deriving DecidableEq, Repr

/-- The length of the common beginning, as far as it consists of characters of `p`. -/
def commonSize (p : Char → Bool) : Text → Text → Nat
  | c :: s, d :: t => if c = d && p c then commonSize p s t + 1 else 0
  | _, _ => 0

/-- The longest piece that begins the candidate `s`, if it is longer than `best`. -/
def longestAt (p : Char → Bool) (s : Text) (i j : Nat) (best : CommonPiece) : Text → CommonPiece
  | [] => best
  | d :: t =>
    let size := commonSize p s (d :: t)
    longestAt p s i (j + 1) (if best.size < size then ⟨i, j, size⟩ else best) t

/-- The longest common piece, if it is longer than `best`. -/
def longestFrom (p : Char → Bool) (word : Text) (i : Nat) (best : CommonPiece) : Text → CommonPiece
  | [] => best
  | c :: s => longestFrom p word (i + 1) (longestAt p (c :: s) i 0 best word) s

/-- The longest common piece of characters of `p`, lengthened by equal characters around it. -/
def longestPiece (p : Char → Bool) (candidate word : Text) : CommonPiece :=
  let best := longestFrom p word 0 ⟨0, 0, 0⟩ candidate
  let before := commonSize (fun _ => true) (candidate.take best.start).reverse
    (word.take best.other).reverse
  let behind := commonSize (fun _ => true) (candidate.drop (best.start + best.size))
    (word.drop (best.other + best.size))
  ⟨best.start - before, best.other - before, best.size + before + behind⟩

/-- The number of matched characters.  `fuel` bounds the depth of the search. -/
def matchedWith (p : Char → Bool) : Nat → Text → Text → Nat
  | 0, _, _ => 0
  | fuel + 1, candidate, word =>
    let piece := longestPiece p candidate word
    if piece.size = 0 then 0
    else piece.size +
      matchedWith p fuel (candidate.take piece.start) (word.take piece.other) +
      matchedWith p fuel (candidate.drop (piece.start + piece.size))
        (word.drop (piece.other + piece.size))

/-- Whether a character of the word is looked for. -/
def isTelling (word : Text) (c : Char) : Bool :=
  word.length < 200 || word.count c ≤ word.length / 100 + 1

/-- The number of matched characters. -/
def matched (candidate word : Text) : Nat :=
  matchedWith (isTelling word) (candidate.length + 1) candidate word

/-- How alike two texts are, as a fraction. -/
def likeness (candidate word : Text) : Nat × Nat :=
  let size := candidate.length + word.length
  if size = 0 then (1, 1) else (2 * matched candidate word, size)

/-- Whether a likeness is three fifths or more. -/
def isClose (l : Nat × Nat) : Bool := 3 * l.2 ≤ 5 * l.1

/-- Whether a candidate comes before another one: the more alike one, and of equally alike ones
the one later in the order of texts. -/
def isCloser (x y : (Nat × Nat) × Text) : Bool :=
  let a := x.1.1 * y.1.2
  let b := y.1.1 * x.1.2
  if a = b then !before x.2 y.2 else b < a

/-- The close candidates, the closest first, at most `limit` of them. -/
def closeMatches (word : Text) (candidates : List Text) (limit : Nat) : List Text :=
  let rated := candidates.map fun c => (likeness c word, c)
  ((sortBy isCloser (rated.filter fun r => isClose r.1)).take limit).map (·.2)

end EntityScaffold.Text
