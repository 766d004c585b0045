import EntityScaffold.Text.Basic

/-!
# UTF-8

* `encode` — the bytes of a text.
* `decode` — the text of bytes, or where and why they are not UTF-8.
* `plainLineEnds` — the text with every kind of line end written as a line feed.
-/

set_option autoImplicit false

namespace EntityScaffold.Text

abbrev Bytes := List UInt8

/-- The bytes of a code point. -/
def encodePoint (n : Nat) : Bytes :=
  let tail := fun k => UInt8.ofNat (0x80 + k % 0x40)
  if n < 0x80 then [UInt8.ofNat n]
  else if n < 0x800 then [UInt8.ofNat (0xc0 + n / 0x40), tail n]
  else if n < 0x10000 then [UInt8.ofNat (0xe0 + n / 0x1000), tail (n / 0x40), tail n]
  else [UInt8.ofNat (0xf0 + n / 0x40000), tail (n / 0x1000), tail (n / 0x40), tail n]

/-- The bytes of a text. -/
def encode (t : Text) : Bytes := t.flatMap fun c => encodePoint c.toNat

/-- Why bytes are not UTF-8. -/
inductive Malformation where
  | start
  | continuation
  | ending
  deriving DecidableEq, Repr

def Malformation.reason : Malformation → Text
  | .start => "invalid start byte"
  | .continuation => "invalid continuation byte"
  | .ending => "unexpected end of data"

/-- The first place where bytes are not UTF-8: the bytes from `start` up to `stop` excluded. -/
structure DecodeError where
  malformation : Malformation
  start : Nat
  stop : Nat
  first : UInt8
  deriving DecidableEq, Repr

def isTail (b : UInt8) : Bool := 0x80 ≤ b.toNat && b.toNat < 0xc0

/-- The six bits of a tail byte. -/
def tailBits (b : UInt8) : Nat := b.toNat - 0x80

/-- Whether the second byte may follow the first one: no overlong forms, no surrogates, nothing
beyond U+10FFFF. -/
def allowsSecond (first second : UInt8) : Bool :=
  isTail second &&
    (if first.toNat = 0xe0 then 0xa0 ≤ second.toNat
    else if first.toNat = 0xed then second.toNat < 0xa0
    else if first.toNat = 0xf0 then 0x90 ≤ second.toNat
    else if first.toNat = 0xf4 then second.toNat < 0x90
    else true)

/-- What the first character of bytes is, and how many bytes it has; or what is wrong and up to
which byte. -/
def decodePoint (b : UInt8) (rest : Bytes) : Except (Malformation × Nat) (Char × Nat) :=
  let size := rest.length + 1
  let n := b.toNat
  if n < 0x80 then .ok (Char.ofNat n, 1)
  else if n < 0xc2 then .error (.start, 1)
  else if n < 0xe0 then
    match rest with
    | [] => .error (.ending, size)
    | c :: _ =>
      if isTail c then .ok (Char.ofNat ((n - 0xc0) * 0x40 + tailBits c), 2)
      else .error (.continuation, 1)
  else if n < 0xf0 then
    match rest with
    | [] => .error (.ending, size)
    | [c] => if allowsSecond b c then .error (.ending, size) else .error (.continuation, 1)
    | c :: d :: _ =>
      if !allowsSecond b c then .error (.continuation, 1)
      else if !isTail d then .error (.continuation, 2)
      else .ok (Char.ofNat ((n - 0xe0) * 0x1000 + tailBits c * 0x40 + tailBits d), 3)
  else if n < 0xf5 then
    match rest with
    | [] => .error (.ending, size)
    | [c] => if allowsSecond b c then .error (.ending, size) else .error (.continuation, 1)
    | [c, d] =>
      if !allowsSecond b c then .error (.continuation, 1)
      else if !isTail d then .error (.continuation, 2)
      else .error (.ending, size)
    | c :: d :: e :: _ =>
      if !allowsSecond b c then .error (.continuation, 1)
      else if !isTail d then .error (.continuation, 2)
      else if !isTail e then .error (.continuation, 3)
      else .ok (Char.ofNat ((n - 0xf0) * 0x40000 + tailBits c * 0x1000 + tailBits d * 0x40 +
        tailBits e), 4)
  else .error (.start, 1)

/-- Decodes bytes that begin at position `pos`; `skip` of them belong to the last character. -/
def decodeFrom (pos skip : Nat) : Bytes → Except DecodeError Text
  | [] => .ok []
  | b :: rest =>
    match skip with
    | skip + 1 => decodeFrom (pos + 1) skip rest
    | 0 =>
      match decodePoint b rest with
      | .ok (c, size) => (decodeFrom (pos + 1) (size - 1) rest).map (c :: ·)
      | .error (malformation, size) => .error ⟨malformation, pos, pos + size, b⟩

/-- The text of bytes. -/
def decode (bytes : Bytes) : Except DecodeError Text := decodeFrom 0 0 bytes

/-- The text with a line feed for every line end: carriage return, line feed, or both. -/
def plainLineEnds : Text → Text
  | [] => []
  | '\r' :: '\n' :: t => '\n' :: plainLineEnds t
  | '\r' :: t => '\n' :: plainLineEnds t
  | c :: t => c :: plainLineEnds t

end EntityScaffold.Text
