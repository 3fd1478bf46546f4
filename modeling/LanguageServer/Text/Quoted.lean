import LanguageServer.Text.Printable

/-!
# Quoted text

How a text is shown inside a message: between single quotes, or between double
quotes if it holds a single quote and no double one.  The quote in use and the
backslash are escaped by a backslash, line breaks and tabs by their letters, and
every other unprintable character by its code point in lower-case hexadecimal.

## Main definitions

* `hexDigits n width` — `n` in lower-case hexadecimal, padded with zeros.
* `quoted s` — the text `s` between quotes.
-/

namespace LanguageServer.Text

/-- One hexadecimal digit, in lower case. -/
def hexDigit (n : Nat) : Char :=
  if n < 10 then Char.ofNat ('0'.toNat + n) else Char.ofNat ('a'.toNat + (n - 10))

/-- The last `width` hexadecimal digits of `n`. -/
def hexDigits (n : Nat) : Nat → List Char
  | 0 => []
  | width + 1 => hexDigits (n / 16) width ++ [hexDigit (n % 16)]

@[simp] theorem length_hexDigits (n width : Nat) : (hexDigits n width).length = width := by
  induction width generalizing n with
  | zero => rfl
  | succ w ih => simp [hexDigits, ih]

/-- The quote that needs fewer escapes: double quotes only for a text that holds single quotes and
no double ones. -/
def quoteFor (s : List Char) : Char :=
  if '\'' ∈ s ∧ '"' ∉ s then '"' else '\''

/-- One character between quotes `q`. -/
def quotedChar (q c : Char) : List Char :=
  if c = q ∨ c = '\\' then ['\\', c]
  else if c = '\n' then ['\\', 'n']
  else if c = '\r' then ['\\', 'r']
  else if c = '\t' then ['\\', 't']
  else if isPrintable c then [c]
  else if c.toNat < 0x100 then '\\' :: 'x' :: hexDigits c.toNat 2
  else if c.toNat < 0x10000 then '\\' :: 'u' :: hexDigits c.toNat 4
  else '\\' :: 'U' :: hexDigits c.toNat 8

/-- A text between quotes. -/
def quoted (s : List Char) : List Char :=
  let q := quoteFor s
  q :: s.flatMap (quotedChar q) ++ [q]

/-- A string between quotes. -/
def quotedString (s : String) : String := String.ofList (quoted s.toList)

end LanguageServer.Text
