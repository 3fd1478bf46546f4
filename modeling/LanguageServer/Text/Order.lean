/-!
# Texts in order

Texts are ordered by their first difference, character by character.

## Main definitions

* `sorted` — texts in rising order.
-/

namespace LanguageServer.Text

/-- Whether one text stands at or before another. -/
def atMost (s t : String) : Bool := !decide (t < s)

/-- Puts a text before the first one that it stands at or before. -/
def insertInOrder (s : String) : List String → List String
  | [] => [s]
  | t :: rest => if atMost s t then s :: t :: rest else t :: insertInOrder s rest

/-- Texts in rising order. -/
def sorted (l : List String) : List String := l.foldr insertInOrder []

theorem insertInOrder_perm (s : String) (l : List String) : (insertInOrder s l).Perm (s :: l) := by
  induction l with
  | nil => exact .refl _
  | cons t rest ih =>
    unfold insertInOrder
    split
    · exact .refl _
    · exact (ih.cons t).trans (.swap s t rest)

/-- Sorting loses and adds nothing. -/
theorem sorted_perm (l : List String) : (sorted l).Perm l := by
  induction l with
  | nil => exact .refl _
  | cons s rest ih => exact (insertInOrder_perm s _).trans (ih.cons s)

@[simp] theorem mem_sorted {s : String} {l : List String} : s ∈ sorted l ↔ s ∈ l :=
  (sorted_perm l).mem_iff

end LanguageServer.Text
