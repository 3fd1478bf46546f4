import LanguageServer.Proofs.Document.RoundTrip

/-!
# Which positions a text has

Every offset of a text has a position, but not every position has an offset: there may be no
such line or no such column, the column may lie inside a surrogate pair, or inside the end of
its line.  The positions with an offset are exactly those of the offsets at which a column
lies, and each of them has only this offset.

The table of line starts is sorted and lists the places behind line feeds.  So the line of an
offset is the only one that starts at or before it while the next one starts behind it.

## Main definitions

* `LineIndex.HasColumn` — the offsets at which a column lies.

## Main statements

* `LineIndex.lineAt_eq` — the line of an offset.
* `LineIndex.offsetAt_eq_ok_iff` — which positions have an offset, and which one.
-/

namespace LanguageServer

open Text

/-! ## The starts of lines -/

/-- Behind a line feed a line starts. -/
theorem mem_lineStartsFrom {text : List Char} {k : Nat} (h : text[k]? = some '\n') (offset : Nat) :
    offset + k + 1 ∈ lineStartsFrom offset text := by
  induction text generalizing k offset with
  | nil => simp at h
  | cons c cs ih =>
    rw [lineStartsFrom]
    cases k with
    | zero =>
      obtain rfl : c = '\n' := Option.some.inj h
      simp
    | succ k =>
      rw [List.getElem?_cons_succ] at h
      have hmem := ih h (offset + 1)
      rw [show offset + 1 + k + 1 = offset + (k + 1) + 1 by omega] at hmem
      split
      · exact List.mem_cons_of_mem _ hmem
      · exact hmem

theorem pairwise_lineStartsFrom (offset : Nat) (text : List Char) :
    (lineStartsFrom offset text).Pairwise (· < ·) := by
  induction text generalizing offset with
  | nil => exact .nil
  | cons c cs ih =>
    rw [lineStartsFrom]
    split
    · exact List.pairwise_cons.2
        ⟨fun start h => (getElem?_of_mem_lineStartsFrom h).1, ih (offset + 1)⟩
    · exact ih (offset + 1)

namespace LineIndex

variable {index : LineIndex} {m n line start offset : Nat}

theorem pairwise_starts (index : LineIndex) : index.starts.Pairwise (· < ·) := by
  rw [index.starts_eq]
  exact List.pairwise_cons.2
    ⟨fun start h => (getElem?_of_mem_lineStartsFrom h).1, pairwise_lineStartsFrom 0 index.text⟩

/-- Lines start one behind the other. -/
theorem starts_lt {a b : Nat} (ha : index.starts[m]? = some a) (hb : index.starts[n]? = some b)
    (h : m < n) : a < b := by
  obtain ⟨hm, rfl⟩ := List.getElem?_eq_some_iff.1 ha
  obtain ⟨hn, rfl⟩ := List.getElem?_eq_some_iff.1 hb
  exact List.pairwise_iff_getElem.1 index.pairwise_starts m n hm hn h

/-- A later line starts no earlier than the line behind. -/
theorem exists_next_le {b : Nat} (hb : index.starts[n]? = some b) (h : m < n) :
    ∃ next, index.starts[m + 1]? = some next ∧ next ≤ b := by
  have hn := (List.getElem?_eq_some_iff.1 hb).1
  have hnext : index.starts[m + 1]? = some index.starts[m + 1] :=
    List.getElem?_eq_getElem (by omega)
  refine ⟨_, hnext, ?_⟩
  rcases Nat.lt_or_eq_of_le h with hlt | rfl
  · exact (starts_lt hnext hb hlt).le
  · exact (Option.some.inj (hnext.symm.trans hb)).le

/-- A line but the first starts behind a line feed. -/
theorem feed_of_starts_succ {next : Nat} (h : index.starts[line + 1]? = some next) :
    0 < next ∧ index.text[next - 1]? = some '\n' := by
  rw [index.starts_eq, List.getElem?_cons_succ] at h
  exact getElem?_of_mem_lineStartsFrom (List.mem_of_getElem? h)

/-- The offset lies on this line: the line starts at or before it, and the next one behind it. -/
structure IsOnLine (index : LineIndex) (line start offset : Nat) : Prop where
  starts : index.starts[line]? = some start
  le : start ≤ offset
  lt_next : ∀ next, index.starts[line + 1]? = some next → offset < next

theorem exists_isOnLine (index : LineIndex) (offset : Nat) :
    ∃ start, index.IsOnLine (index.lineAt offset) start offset := by
  obtain ⟨start, hstarts, hle, hnext⟩ := index.starts_lineAt offset
  exact ⟨start, hstarts, hle, hnext⟩

/-- An offset lies on one line only. -/
theorem IsOnLine.not_lt {line' start' : Nat} (h : index.IsOnLine line start offset)
    (h' : index.IsOnLine line' start' offset) : ¬ line < line' := by
  intro hlt
  obtain ⟨next, hnext, hle⟩ := exists_next_le h'.starts hlt
  have hbehind := h.lt_next next hnext
  have hfront := h'.le
  omega

theorem lineAt_eq (h : index.IsOnLine line start offset) : index.lineAt offset = line := by
  obtain ⟨start', h'⟩ := index.exists_isOnLine offset
  exact Nat.le_antisymm (Nat.not_lt.1 (h.not_lt h')) (Nat.not_lt.1 (h'.not_lt h))

/-- Where a line starts, this line is the one that the offset lies on. -/
theorem isOnLine_start (h : index.starts[line]? = some start) :
    index.IsOnLine line start start :=
  ⟨h, Nat.le_refl start, fun _ hnext => starts_lt h hnext (Nat.lt_succ_self line)⟩

/-- Behind a character of a line that is no line feed the same line goes on. -/
theorem IsOnLine.succ {c : Char} (h : index.IsOnLine line start offset)
    (hc : index.text[offset]? = some c) (hne : c ≠ '\n') :
    index.IsOnLine line start (offset + 1) := by
  refine ⟨h.starts, Nat.le_succ_of_le h.le, fun next hnext => ?_⟩
  refine Nat.lt_of_le_of_ne (h.lt_next next hnext) fun heq => hne ?_
  subst heq
  exact Option.some.inj (hc.symm.trans (feed_of_starts_succ hnext).2)

/-- Behind a line feed the next line starts. -/
theorem IsOnLine.feed (h : index.IsOnLine line start offset)
    (hc : index.text[offset]? = some '\n') :
    index.IsOnLine (line + 1) (offset + 1) (offset + 1) := by
  have hmem : offset + 1 ∈ index.starts := by
    rw [index.starts_eq]
    exact List.mem_cons_of_mem _ (by simpa using mem_lineStartsFrom hc 0)
  obtain ⟨n, hn⟩ := List.getElem?_of_mem hmem
  have hlt : line < n := by
    rcases Nat.lt_trichotomy line n with hlt | rfl | hlt
    · exact hlt
    · have heq := Option.some.inj (h.starts.symm.trans hn)
      have hle := h.le
      omega
    · have hlt := starts_lt hn h.starts hlt
      have hle := h.le
      omega
  obtain ⟨next, hnext, hle⟩ := exists_next_le hn hlt
  obtain rfl : next = offset + 1 := Nat.le_antisymm hle (h.lt_next next hnext)
  exact isOnLine_start hnext

/-- The position of an offset on a line. -/
theorem positionAt_eq (h : index.IsOnLine line start offset) (hle : offset ≤ index.text.length) :
    index.positionAt offset =
      ⟨line, unitCount ((index.text.drop start).take (offset - start))⟩ := by
  have hclamp : index.clamp offset = offset := by
    rw [clamp, Int.toNat_natCast, Nat.min_eq_left hle]
  simp only [positionAt, hclamp, lineAt_eq h, List.getD_eq_getElem?_getD, h.starts,
    Option.getD_some]

/-! ## Columns -/

/-- A column lies at an offset of a text unless a carriage return stands before it that ends its
line: one that is followed by a line feed, or by nothing. -/
structure HasColumn (index : LineIndex) (offset : Nat) : Prop where
  le_length : offset ≤ index.text.length
  of_return : ∀ before, offset = before + 1 → index.text[before]? = some '\r' →
    ∃ c, index.text[offset]? = some c ∧ c ≠ '\n'

/-- The offsets whose positions are read back. -/
theorem HasColumn.inLine (h : index.HasColumn offset) :
    (∃ c, index.text[offset]? = some c ∧ c ≠ '\n') ∨ index.text[offset - 1]? ≠ some '\r' := by
  by_cases hreturn : index.text[offset - 1]? = some '\r'
  · refine .inl ?_
    cases offset with
    | zero => exact ⟨'\r', hreturn, by decide⟩
    | succ before => exact h.of_return before rfl hreturn
  · exact .inr hreturn

/-- A row reaches up to the line feed that ends it, or to the end of the text. -/
theorem exists_row (hstart : index.starts[line]? = some start) :
    ∃ stop, index.lineText? line =
        some (dropFinalReturn ((index.text.drop start).take (stop - start))) ∧
      start ≤ stop ∧ stop ≤ index.text.length ∧
      ∀ next, index.starts[line + 1]? = some next → stop < next := by
  obtain ⟨stop, htext, hstop, hend⟩ := lineText?_eq hstart
  refine ⟨stop, htext, ?_⟩
  cases hnext : index.starts[line + 1]? with
  | none =>
    rw [hend hnext]
    refine ⟨?_, Nat.le_refl _, by simp⟩
    cases line with
    | zero =>
      rw [index.starts_eq] at hstart
      obtain rfl : 0 = start := Option.some.inj hstart
      exact Nat.zero_le _
    | succ line =>
      obtain ⟨hpos, hfeed⟩ := feed_of_starts_succ hstart
      have hlt := (List.getElem?_eq_some_iff.1 hfeed).1
      omega
  | some next =>
    have hlt := starts_lt hstart hnext (Nat.lt_succ_self line)
    obtain ⟨hpos, hfeed⟩ := feed_of_starts_succ hnext
    have hinside := (List.getElem?_eq_some_iff.1 hfeed).1
    rw [hstop next hnext]
    refine ⟨by omega, by omega, ?_⟩
    rintro _ ⟨⟩
    omega

/-- What is left of a row reaches up to its end only if no carriage return was dropped there. -/
theorem le_length_of_le_dropFinalReturn {row : List Char} {j : Nat}
    (hj : j ≤ (dropFinalReturn row).length) :
    j ≤ row.length ∧ (j = row.length → row.getLast? ≠ some '\r') := by
  unfold dropFinalReturn at hj
  split at hj
  · next hlast =>
    have hpos : 0 < row.length := List.length_pos_iff.2 (by rintro rfl; simp at hlast)
    rw [List.length_dropLast] at hj
    exact ⟨by omega, by omega⟩
  · next hlast => exact ⟨hj, fun _ => hlast⟩

/-- A column lies in front of each character of a line and behind the last one. -/
theorem hasColumn_of_le_lineText {shown : List Char} {j : Nat}
    (hstart : index.starts[line]? = some start) (hshown : index.lineText? line = some shown)
    (hj : j ≤ shown.length) :
    index.IsOnLine line start (start + j) ∧ index.HasColumn (start + j) := by
  obtain ⟨stop, htext, hle, hbound, hnext⟩ := exists_row hstart
  obtain rfl := Option.some.inj (hshown.symm.trans htext)
  obtain ⟨hwhole, hlast⟩ := le_length_of_le_dropFinalReturn hj
  have hlength : ((index.text.drop start).take (stop - start)).length = stop - start := by
    rw [List.length_take, List.length_drop]
    omega
  rw [hlength] at hwhole hlast
  have hline : index.IsOnLine line start (start + j) :=
    ⟨hstart, Nat.le_add_right _ _, fun next h => by have := hnext next h; omega⟩
  refine ⟨hline, by omega, fun before hoffset hreturn => ?_⟩
  rcases Nat.lt_or_eq_of_le hwhole with hlt | heq
  · -- Inside the row another character follows, and a line feed would end the row there.
    have hinside : start + j < index.text.length := by omega
    refine ⟨_, List.getElem?_eq_getElem hinside, fun hfeed => ?_⟩
    have hbehind := hnext _
      (hline.feed ((List.getElem?_eq_getElem hinside).trans (congrArg some hfeed))).starts
    omega
  · -- At its end the row does not end with a carriage return, and neither does the line before.
    exfalso
    cases j with
    | zero =>
      cases line with
      | zero =>
        rw [index.starts_eq] at hstart
        obtain rfl : 0 = start := Option.some.inj hstart
        omega
      | succ line =>
        obtain ⟨-, hfeed⟩ := feed_of_starts_succ hstart
        rw [show start - 1 = before by omega, hreturn] at hfeed
        exact absurd (Option.some.inj hfeed) (by decide)
    | succ j =>
      refine hlast heq ?_
      rw [List.getLast?_eq_getElem?, hlength, List.getElem?_take_of_lt (by omega),
        List.getElem?_drop, show start + (stop - start - 1) = before by omega]
      exact hreturn

/-- The position of an offset that was found. -/
theorem positionAt_of_offsetAt {p : Position} (h : index.offsetAt p = .ok offset) :
    index.HasColumn offset ∧ index.positionAt offset = p := by
  unfold offsetAt at h
  split at h
  · cases h
  · next hline =>
    split at h
    · next start shown hstart hshown =>
      split at h
      · cases h
      · next hcharacter =>
        split at h
        · next count hcolumn =>
          obtain rfl := Except.ok.inj h
          obtain ⟨j, hj, rfl, hunits⟩ := findColumn_eq_found hcolumn
          rw [Nat.zero_add] at hunits ⊢
          obtain ⟨honLine, hcolumn⟩ := hasColumn_of_le_lineText hstart hshown hj
          obtain ⟨rest, hrest⟩ := lineText?_isPrefix hstart hshown
          refine ⟨hcolumn, ?_⟩
          rw [positionAt_eq honLine hcolumn.le_length, Nat.add_sub_cancel_left, ← hrest,
            List.take_append_of_le_length hj, ← hunits]
          obtain ⟨l, c⟩ := p
          simp only [Position.mk.injEq]
          simp only at hline hcharacter
          omega
        · cases h
        · cases h
    · cases h

end LineIndex

end LanguageServer
