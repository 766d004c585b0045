import EntityScaffold.Text.Printable

/-!
# Quoted texts

The form in which messages show a text inside a larger value: between single quotes, or
between double quotes if the text has a single quote and no double one, with backslash escapes
for the quote, the backslash and everything that does not print.
-/

set_option autoImplicit false

namespace EntityScaffold.Text

def hexDigit (n : Nat) : Char :=
  if n < 10 then Char.ofNat (48 + n) else Char.ofNat (87 + n)

/-- The last `width` hexadecimal digits of a number, in lower case. -/
def hexDigits : Nat → Nat → Text
  | 0, _ => []
  | width + 1, n => hexDigits width (n / 16) ++ [hexDigit (n % 16)]

/-- How a character is written between the quotes `q`. -/
def escapeChar (q c : Char) : Text :=
  if c = q || c = '\\' then ['\\', c]
  else if c = '\n' then "\\n"
  else if c = '\r' then "\\r"
  else if c = '\t' then "\\t"
  else if isPrintable c then [c]
  else if c.toNat < 0x100 then "\\x" ++ hexDigits 2 c.toNat
  else if c.toNat < 0x10000 then "\\u" ++ hexDigits 4 c.toNat
  else "\\U" ++ hexDigits 8 c.toNat

/-- The quote that needs the fewer escapes; the single one if in doubt. -/
def quoteFor (t : Text) : Char :=
  if t.contains '\'' && !t.contains '"' then '"' else '\''

/-- A text between quotes. -/
def quoted (t : Text) : Text :=
  let q := quoteFor t
  q :: t.flatMap (escapeChar q) ++ [q]

end EntityScaffold.Text
