/-!
# Capitals

Names of trace levels are compared without regard to case, by their capital form.
A capital form may be longer than the letter: the ligature of two f is written FF.
Only letters whose capital form lies in ASCII can make a text equal to an ASCII
name, so the table holds just those and leaves every other character alone.

## Main definitions

* `capital c` — the capital form of one character, where it lies in ASCII.
* `capitals s` — the capital form of a text, as far as ASCII names can tell.
-/

namespace LanguageServer.Text

/-- The letters outside ASCII whose capital form is in ASCII. -/
def capitalForms : List (Char × List Char) :=
  [('ß', ['S', 'S']), ('ı', ['I']), ('ſ', ['S']), ('ﬀ', ['F', 'F']), ('ﬁ', ['F', 'I']),
   ('ﬂ', ['F', 'L']), ('ﬃ', ['F', 'F', 'I']), ('ﬄ', ['F', 'F', 'L']), ('ﬅ', ['S', 'T']),
   ('ﬆ', ['S', 'T'])]

/-- The capital form of one character, where it lies in ASCII; the character itself otherwise. -/
def capital (c : Char) : List Char :=
  if c.toNat < 0x80 then [c.toUpper] else (capitalForms.lookup c).getD [c]

/-- The capital form of a text, exact wherever it is compared with an ASCII text. -/
def capitals (s : List Char) : List Char := s.flatMap capital

end LanguageServer.Text
