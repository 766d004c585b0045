import EntityScaffold.Text.Utf8

/-!
# Bytes in base 64

Four characters stand for three bytes.  Characters outside of the alphabet do not count, and
equals signs fill up the last four.

* `Base64.decode?` — the bytes of a text.
-/

set_option autoImplicit false

namespace EntityScaffold.Base64

open Text

/-- The 64 characters in the order of their values. -/
def alphabet : Text := "ABCDEFGHIJKLMNOPQRSTUVWXYZabcdefghijklmnopqrstuvwxyz0123456789+/"

/-- The values of the characters up to the signs that fill up the last four; none if the last four
are not filled up.  `length` counts the values before, `signs` the equals signs just before. -/
def valuesFrom (length signs : Nat) : Text → Option (List Nat)
  | [] => if length % 4 = 0 then some [] else none
  | c :: t =>
    if c = '=' then
      if length % 4 < 2 then valuesFrom length signs t
      else if length % 4 + signs + 1 < 4 then valuesFrom length (signs + 1) t
      else some []
    else match alphabet.idxOf? c with
      | some v => (valuesFrom (length + 1) 0 t).map (v :: ·)
      | none => valuesFrom length signs t

/-- The bytes of values of six bits each; bits that are left over do not count. -/
def bytesOf : List Nat → Bytes
  | a :: b :: c :: d :: more =>
    let n := a * 262144 + b * 4096 + c * 64 + d
    UInt8.ofNat (n / 65536) :: UInt8.ofNat (n / 256) :: UInt8.ofNat n :: bytesOf more
  | [a, b, c] =>
    let n := a * 1024 + b * 16 + c / 4
    [UInt8.ofNat (n / 256), UInt8.ofNat n]
  | [a, b] => [UInt8.ofNat (a * 4 + b / 16)]
  | _ => []

/-- The bytes of a text of ASCII characters. -/
def decode? (t : Text) : Option Bytes :=
  if t.all fun c => c.toNat < 0x80 then (valuesFrom 0 0 t).map bytesOf else none

end EntityScaffold.Base64
