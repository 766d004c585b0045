import EntityScaffold.Text.Basic

/-!
# Binary floating-point numbers

Numbers of the 64-bit binary format, as exact values `m · 2^q`.

* `Binary64.ofDecimal` — the number nearest to a decimal one; of two equally near ones that with
  the even `m`.
* `Binary64.shortest` — the fewest decimal digits that read back as the number, and of those the
  nearest to it.
* `Binary64.text` — positional notation from 0.0001 up to below 10^16, an exponent elsewhere.
* `Binary64.add`, `Binary64.mul` — the numbers nearest to a sum and to a product.
-/

set_option autoImplicit false

namespace EntityScaffold

/-- A number of the 64-bit binary format.  A finite one is `m · 2^q` with `m < 2^53` and
`q ≥ -1074`, and `m ≥ 2^52` unless `q = -1074`. -/
inductive Binary64 where
  | finite (negative : Bool) (m : Nat) (q : Int)
  | infinite (negative : Bool)
  | nan
  deriving DecidableEq, Repr

namespace Binary64

/-- `2^q` or `10^q` as a fraction. -/
def power (base : Nat) (q : Int) : Nat × Nat :=
  if 0 ≤ q then (Nat.pow base q.toNat, 1) else (1, Nat.pow base (-q).toNat)

/-- The integer nearest to a fraction; of two equally near ones the even one. -/
def roundDiv (num den : Nat) : Nat :=
  let quotient := num / den
  let twice := 2 * (num % den)
  if twice < den || (twice == den && quotient % 2 == 0) then quotient else quotient + 1

/-- The greatest `k` with `2^k ≤ num / den`. -/
def floorLog2 (num den : Nat) : Int :=
  let k : Int := (num.log2 : Int) - (den.log2 : Int)
  let (a, b) := power 2 k
  if a * den ≤ num * b then k else k - 1

/-- The number nearest to a fraction. -/
def ofFraction (negative : Bool) (num den : Nat) : Binary64 :=
  if num = 0 then .finite negative 0 (-1074)
  else
    let q := max (floorLog2 num den - 52) (-1074)
    let (a, b) := power 2 q
    let m := roundDiv (num * b) (den * a)
    let (m, q) := if m = Nat.pow 2 53 then (Nat.pow 2 52, q + 1) else (m, q)
    if 971 < q then .infinite negative else .finite negative m q

/-- The number nearest to `digits · 10^exponent`. -/
def ofDecimal (negative : Bool) (digits : Nat) (exponent : Int) : Binary64 :=
  let size : Int := (Nat.repr digits).length + exponent
  if digits = 0 || size < -330 then .finite negative 0 (-1074)
  else if 330 < size then .infinite negative
  else
    let (a, b) := power 10 exponent
    ofFraction negative (digits * a) b

/-- Whether a fraction lies between the bounds `low / den` and `high / den`. -/
structure Interval where
  low : Nat
  high : Nat
  den : Nat
  closed : Bool

def Interval.holds (i : Interval) (num den : Nat) : Bool :=
  if i.closed then i.low * den ≤ num * i.den && num * i.den ≤ i.high * den
  else i.low * den < num * i.den && num * i.den < i.high * den

/-- The fractions that are nearest to `m · 2^q`. -/
def nearest (m : Nat) (q : Int) : Interval :=
  let (a, b) := power 2 (q - 2)
  let below := if m = Nat.pow 2 52 && -1074 < q then 1 else 2
  ⟨(4 * m - below) * a, (4 * m + 2) * a, b, m % 2 == 0⟩

/-- The number of digits before the point of a positive fraction; zero or less if the first
digits behind it are zeros. -/
def magnitude (num den : Nat) : Int :=
  let guess : Int := (Nat.repr num).length - (Nat.repr den).length
  let (a, b) := power 10 guess
  if a * den ≤ num * b then guess + 1 else guess

/-- The digits and the exponent of the decimal number of `count` digits that lies in the
interval and is nearest to the fraction. -/
def decimalWith (i : Interval) (num den count : Nat) : Option (Nat × Int) :=
  let exponent := magnitude num den - count
  let (a, b) := power 10 exponent
  let low := num * b / (den * a)
  let inside := fun d => i.holds (d * a) b
  match inside low, inside (low + 1) with
  | true, true =>
    let rest := 2 * (num * b % (den * a))
    some (if rest < den * a || (rest == den * a && low % 2 == 0) then low else low + 1, exponent)
  | true, false => some (low, exponent)
  | false, true => some (low + 1, exponent)
  | false, false => none

/-- The shortest decimal number that reads back as `m · 2^q`. -/
def shortest (m : Nat) (q : Int) : Nat × Int :=
  let (a, b) := power 2 q
  ((List.range 17).findSome? fun n => decimalWith (nearest m q) (m * a) b (n + 1)).getD (m, q)

/-- A decimal number in positional notation or with an exponent. -/
def decimalText (digits : Nat) (exponent : Int) : Text :=
  let ds := (Nat.repr digits).toList
  let point : Int := ds.length + exponent
  let ds := Text.dropEndWhile (· == '0') ds
  let ds := if ds = [] then ['0'] else ds
  if -4 < point && point ≤ 16 then
    if point ≤ 0 then "0." ++ List.replicate (-point).toNat '0' ++ ds
    else if ds.length ≤ point.toNat then
      ds ++ List.replicate (point.toNat - ds.length) '0' ++ ".0"
    else ds.take point.toNat ++ "." ++ ds.drop point.toNat
  else
    let e := point - 1
    let sign := if e < 0 then '-' else '+'
    let mantissa := match ds with
      | [d] => [d]
      | d :: more => d :: '.' :: more
      | [] => []
    let size := (Nat.repr e.natAbs).toList
    mantissa ++ ['e', sign] ++ (if size.length < 2 then '0' :: size else size)

/-- The text of a number. -/
def text : Binary64 → Text
  | .nan => "nan"
  | .infinite negative => if negative then "-inf" else "inf"
  | .finite negative m q =>
    (if negative then ['-'] else []) ++
      (if m = 0 then ("0.0" : Text) else decimalText (shortest m q).1 (shortest m q).2)

/-- The integer that a number is, if it is one. -/
def toInt? : Binary64 → Option Int
  | .finite negative m q =>
    let (a, b) := power 2 q
    if m * a % b = 0 then some (if negative then -(m * a / b : Nat) else (m * a / b : Nat))
    else none
  | _ => none

/-! ## Arithmetic -/

/-- An integer from its sign and size. -/
def withSign (negative : Bool) (m : Nat) : Int := if negative then -(m : Int) else m

/-- The number nearest to `n · 2^q`; `negative` is the sign that zero has. -/
def ofScaled (negative : Bool) (n q : Int) : Binary64 :=
  if n = 0 then .finite negative 0 (-1074)
  else
    let (a, b) := power 2 q
    ofFraction (n < 0) (n.natAbs * a) b

/-- The number nearest to an integer, unless that is beyond all numbers. -/
def ofInt? (n : Int) : Option Binary64 :=
  match ofScaled false n 0 with
  | .infinite _ => none
  | x => some x

/-- The number with the other sign. -/
def neg : Binary64 → Binary64
  | .finite negative m q => .finite (!negative) m q
  | .infinite negative => .infinite (!negative)
  | .nan => .nan

/-- The number nearest to the sum of two numbers. -/
def add : Binary64 → Binary64 → Binary64
  | .nan, _ | _, .nan => .nan
  | .infinite s, .infinite t => if s = t then .infinite s else .nan
  | .infinite s, _ | _, .infinite s => .infinite s
  | .finite s m q, .finite t n r =>
    let low := min q r
    ofScaled (s && t)
      (withSign s (m * Nat.pow 2 (q - low).toNat) + withSign t (n * Nat.pow 2 (r - low).toNat)) low

/-- The number nearest to the product of two numbers. -/
def mul : Binary64 → Binary64 → Binary64
  | .nan, _ | _, .nan => .nan
  | .infinite s, .infinite t => .infinite (s != t)
  | .infinite s, .finite t n _ | .finite t n _, .infinite s =>
    if n = 0 then .nan else .infinite (s != t)
  | .finite s m q, .finite t n r => ofScaled (s != t) (withSign (s != t) (m * n)) (q + r)

end Binary64

end EntityScaffold
