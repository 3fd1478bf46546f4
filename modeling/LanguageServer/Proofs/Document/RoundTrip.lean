import LanguageServer.Proofs.Document.Editor
import Mathlib.Data.List.TakeWhile

/-!
# From offsets to positions and back

A position is read back as the offset that it stands for, unless that lies behind a carriage return
at the end of its line: no column lies there.

## Main statements

* `LineIndex.starts_lineAt` — the line of an offset starts at or before it, and the next one behind.
* `LineIndex.offsetAt_positionAt` — the offset of the position of an offset.
-/

namespace LanguageServer

open Text

/-- A line but the first starts behind a line feed. -/
theorem getElem?_of_mem_lineStartsFrom {offset start : Nat} {text : List Char}
    (h : start ∈ lineStartsFrom offset text) :
    offset < start ∧ text[start - offset - 1]? = some '\n' := by
  induction text generalizing offset with
  | nil => cases h
  | cons c cs ih =>
    have hbehind (h : start ∈ lineStartsFrom (offset + 1) cs) :
        offset < start ∧ (c :: cs)[start - offset - 1]? = some '\n' := by
      obtain ⟨hlt, hfeed⟩ := ih h
      have hindex : start - offset - 1 = (start - (offset + 1) - 1) + 1 := by omega
      exact ⟨by omega, by rw [hindex, List.getElem?_cons_succ]; exact hfeed⟩
    rw [lineStartsFrom] at h
    split at h
    · next hc =>
      rcases List.mem_cons.1 h with rfl | h
      · exact ⟨Nat.lt_succ_self _, by simp [hc]⟩
      · exact hbehind h
    · exact hbehind h

namespace LineIndex

/-- A column is found behind the characters that take it up. -/
theorem findColumn_unitCount (line : List Char) {j : Nat} (hj : j ≤ line.length) (units count : Nat) :
    findColumn (units + unitCount (line.take j)) units count line = .found (count + j) := by
  induction line generalizing j units count with
  | nil =>
    obtain rfl : j = 0 := Nat.le_zero.1 hj
    simp [findColumn]
  | cons c cs ih =>
    rw [findColumn]
    cases j with
    | zero => simp
    | succ j =>
      have hpos := width_pos c
      have hwidth : units + unitCount ((c :: cs).take (j + 1)) =
          units + width c + unitCount (cs.take j) := by
        rw [List.take_succ_cons, unitCount_cons, Nat.add_assoc]
      rw [hwidth, if_neg (by omega), if_neg (by omega), ih (Nat.le_of_succ_le_succ hj)]
      exact congrArg Column.found (by omega)

/-- The line of an offset starts at or before it, and the next line behind it. -/
theorem starts_lineAt (index : LineIndex) (offset : Nat) :
    ∃ start, index.starts[index.lineAt offset]? = some start ∧ start ≤ offset ∧
      ∀ next, index.starts[index.lineAt offset + 1]? = some next → offset < next := by
  have hparts : index.starts.takeWhile (· ≤ offset) ++ index.starts.dropWhile (· ≤ offset) =
    index.starts := List.takeWhile_append_dropWhile
  have hne : index.starts.takeWhile (· ≤ offset) ≠ [] := by
    rw [index.starts_eq, List.takeWhile_cons_of_pos (by simp)]
    exact List.cons_ne_nil _ _
  have hfront := List.mem_takeWhile_imp (List.getLast_mem hne)
  have hbehind := List.head?_dropWhile_not (fun start => decide (start ≤ offset)) index.starts
  rw [lineAt]
  generalize index.starts.takeWhile (· ≤ offset) = front at hparts hne hfront
  generalize index.starts.dropWhile (· ≤ offset) = behind at hparts hbehind
  have hpos := List.length_pos_iff.2 hne
  refine ⟨front.getLast hne, ?_, by simpa using hfront, fun next hnext => ?_⟩
  · rw [← hparts, List.getElem?_append_left (by omega), ← List.getLast?_eq_getElem?,
      List.getLast?_eq_some_getLast hne]
  · rw [Nat.sub_add_cancel hpos, ← hparts, List.getElem?_append_right (Nat.le_refl _),
      Nat.sub_self, ← List.head?_eq_getElem?] at hnext
    rw [hnext] at hbehind
    simpa using hbehind

/-- The offset behind the last character of a line, its line feed apart. -/
theorem lineText?_eq {index : LineIndex} {line start : Nat}
    (hstart : index.starts[line]? = some start) :
    ∃ stop, index.lineText? line =
        some (dropFinalReturn ((index.text.drop start).take (stop - start))) ∧
      (∀ next, index.starts[line + 1]? = some next → stop = next - 1) ∧
      (index.starts[line + 1]? = none → stop = index.text.length) := by
  rw [lineText?, hstart]
  cases hnext : index.starts[line + 1]? with
  | none => exact ⟨_, rfl, by simp, fun _ => rfl⟩
  | some next => exact ⟨_, rfl, by rintro _ ⟨⟩; rfl, by simp⟩

/-- Nothing is dropped from the first characters of a line unless it is all of it and ends with a
carriage return. -/
theorem take_dropFinalReturn {row : List Char} {j : Nat} (hj : j ≤ row.length)
    (hlast : j < row.length ∨ row[j - 1]? ≠ some '\r') :
    j ≤ (dropFinalReturn row).length ∧ (dropFinalReturn row).take j = row.take j := by
  unfold dropFinalReturn
  split
  · next hreturn =>
    rw [List.getLast?_eq_getElem?] at hreturn
    have hlt : j < row.length := by
      rcases hlast with hlt | hne
      · exact hlt
      · by_contra hge
        obtain rfl : j = row.length := by omega
        exact hne hreturn
    exact ⟨by rw [List.length_dropLast]; omega,
      by rw [List.dropLast_eq_take, List.take_take, Nat.min_eq_left (by omega)]⟩
  · exact ⟨hj, rfl⟩

/-- The line of an offset reaches up to it, and further if a character of the line follows. -/
theorem exists_lineText?_lineAt {index : LineIndex} {offset : Nat}
    (hle : offset ≤ index.text.length) :
    ∃ start stop, index.starts[index.lineAt offset]? = some start ∧
      index.lineText? (index.lineAt offset) =
        some (dropFinalReturn ((index.text.drop start).take (stop - start))) ∧
      start ≤ offset ∧ offset ≤ stop ∧ stop ≤ index.text.length ∧
      ((∃ c, index.text[offset]? = some c ∧ c ≠ '\n') → offset < stop) := by
  obtain ⟨start, hstart, hfront, hnext⟩ := index.starts_lineAt offset
  obtain ⟨stop, htext, hstop, hend⟩ := lineText?_eq hstart
  refine ⟨start, stop, hstart, htext, hfront, ?_⟩
  cases hmore : index.starts[index.lineAt offset + 1]? with
  | none =>
    rw [hend hmore]
    refine ⟨hle, Nat.le_refl _, ?_⟩
    rintro ⟨c, hc, -⟩
    exact (List.getElem?_eq_some_iff.1 hc).1
  | some next =>
    have hlt := hnext next hmore
    have hmem : next ∈ lineStartsFrom 0 index.text := by
      rw [index.starts_eq, List.getElem?_cons_succ] at hmore
      exact List.mem_of_getElem? hmore
    obtain ⟨-, hfeed⟩ := getElem?_of_mem_lineStartsFrom hmem
    have hinside := (List.getElem?_eq_some_iff.1 hfeed).1
    rw [hstop next hmore]
    refine ⟨by omega, by omega, ?_⟩
    rintro ⟨c, hc, hne⟩
    by_contra hge
    obtain rfl : offset = next - 0 - 1 := by omega
    exact hne (Option.some.inj (hc.symm.trans hfeed))

/-- The character before an offset is the one before its place in the row that it is in. -/
theorem getElem?_row {text : List Char} {start stop offset : Nat} {c : Char} (hle : start ≤ offset)
    (hstop : stop ≤ offset)
    (h : ((text.drop start).take (stop - start))[offset - start - 1]? = some c) :
    text[offset - 1]? = some c := by
  have hbound := (List.getElem?_eq_some_iff.1 h).1
  rw [List.length_take] at hbound
  rw [List.getElem?_take, List.getElem?_drop] at h
  split at h
  · rwa [show start + (offset - start - 1) = offset - 1 by omega] at h
  · cases h

/-- The offset of the position of an offset, which does not lie behind a carriage return at the end of
its line. -/
theorem offsetAt_positionAt {index : LineIndex} {offset : Nat} (hle : offset ≤ index.text.length)
    (hline : (∃ c, index.text[offset]? = some c ∧ c ≠ '\n') ∨
      index.text[offset - 1]? ≠ some '\r') :
    index.offsetAt (index.positionAt offset) = .ok offset := by
  obtain ⟨start, stop, hstart, htext, hfront, hback, hbound, hmore⟩ := exists_lineText?_lineAt hle
  have hclamp : index.clamp offset = offset := by
    rw [clamp, Int.toNat_natCast, Nat.min_eq_left hle]
  have hposition : index.positionAt offset =
      ⟨index.lineAt offset, unitCount ((index.text.drop start).take (offset - start))⟩ := by
    simp only [positionAt, hclamp, List.getD_eq_getElem?_getD, hstart, Option.getD_some]
  have hlength : ((index.text.drop start).take (stop - start)).length = stop - start := by
    rw [List.length_take, List.length_drop]
    omega
  have hlast : offset - start < ((index.text.drop start).take (stop - start)).length ∨
      ((index.text.drop start).take (stop - start))[offset - start - 1]? ≠ some '\r' := by
    rw [hlength]
    by_cases hlt : offset < stop
    · exact .inl (by omega)
    · have hreturn := hline.resolve_left fun hchar => hlt (hmore hchar)
      exact .inr fun hreturn' => hreturn (getElem?_row hfront (Nat.not_lt.1 hlt) hreturn')
  obtain ⟨hshort, htake⟩ := take_dropFinalReturn (j := offset - start) (by omega) hlast
  have hprefix : (index.text.drop start).take (offset - start) =
      (dropFinalReturn ((index.text.drop start).take (stop - start))).take (offset - start) := by
    rw [htake, List.take_take, Nat.min_eq_left (by omega)]
  -- The columns in front of the offset are counted alike on the way there and on the way back.
  have hfound := findColumn_unitCount _ hshort 0 0
  rw [Nat.zero_add, ← hprefix, Nat.zero_add] at hfound
  rw [hposition, offsetAt, if_neg (by simp)]
  simp only [Int.toNat_natCast, hstart, htext]
  rw [if_neg (by omega), hfound]
  exact congrArg Except.ok (by omega)

end LineIndex

end LanguageServer
