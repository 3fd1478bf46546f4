import LanguageServer.Text.Range

/-!
# White space

The Unicode white space characters together with the four ASCII separators
U+001C to U+001F.  Trimming a text removes them at both ends.

## Main definitions

* `isBlank c` — white space of any script.
* `trimWhile p s` — `s` without the characters at its ends that satisfy `p`.
* `trim s` — `s` without the white space at its ends.
-/

namespace LanguageServer.Text

/-- White space, as closed ranges of code points. -/
def blankRanges : List (Nat × Nat) :=
  [(0x9, 0xD), (0x1C, 0x20), (0x85, 0x85), (0xA0, 0xA0), (0x1680, 0x1680), (0x2000, 0x200A),
   (0x2028, 0x2029), (0x202F, 0x202F), (0x205F, 0x205F), (0x3000, 0x3000)]

/-- Whether `c` is white space. -/
def isBlank (c : Char) : Bool := inRanges blankRanges c

/-- Every character of the core library's class of white space is white space here. -/
theorem isBlank_of_isWhitespace {c : Char} (h : c.isWhitespace = true) : isBlank c = true := by
  simp only [Char.isWhitespace, Bool.or_eq_true, decide_eq_true_eq] at h
  rcases h with ((h | h) | h) | h <;> subst h <;> decide

/-- Removes the characters at both ends that satisfy `p`. -/
def trimWhile (p : Char → Bool) (s : List Char) : List Char :=
  ((s.dropWhile p).reverse.dropWhile p).reverse

/-- Removes the white space at both ends. -/
def trim (s : List Char) : List Char := trimWhile isBlank s

end LanguageServer.Text
