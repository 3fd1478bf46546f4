import LanguageServer.Text.Numeral
import Mathlib.Data.List.DropRight
import Mathlib.Data.List.TakeWhile

/-!
# Trimming and reading numerals

White space at the ends of a text does not matter to what is trimmed, and trimming a text
does the same to its parts around a character that is no white space.  Decimal digits read as
the number that they were written for.

## Main statements

* `trimWhile_eq_nil_iff` — what is trimmed to nothing.
* `trimWhile_append_cons` — trimming around a character that stays.
* `readInteger?_decimalDigits` — the digits of a number denote it.
-/

namespace LanguageServer.Text

variable {p : Char → Bool} {s t : List Char}

/-! ## Trimming -/

theorem trimWhile_eq_rdropWhile : trimWhile p s = (s.dropWhile p).rdropWhile p := rfl

/-- A text is trimmed to nothing if nothing else is in it. -/
theorem trimWhile_eq_nil_iff : trimWhile p s = [] ↔ ∀ c ∈ s, p c = true := by
  rw [trimWhile_eq_rdropWhile, List.rdropWhile_eq_nil_iff]
  refine ⟨fun h c hc => ?_, fun h c hc => h c ((List.dropWhile_suffix p).subset hc)⟩
  rw [← List.takeWhile_append_dropWhile (p := p) (l := s)] at hc
  exact (List.mem_append.1 hc).elim List.mem_takeWhile_imp (h c)

theorem trimWhile_subset : trimWhile p s ⊆ s := fun _ hc =>
  (List.dropWhile_suffix p).subset ((List.rdropWhile_prefix p _).subset hc)

theorem trimWhile_append_left (h : ∀ c ∈ t, p c = true) : trimWhile p (t ++ s) = trimWhile p s := by
  unfold trimWhile
  rw [List.dropWhile_append_of_pos h]

theorem trimWhile_append_right (h : ∀ c ∈ t, p c = true) :
    trimWhile p (s ++ t) = trimWhile p s := by
  unfold trimWhile
  rw [List.dropWhile_append]
  split
  · next hs => rw [List.dropWhile_eq_nil_iff.2 h, List.isEmpty_iff.1 hs]
  · rw [List.reverse_append, List.dropWhile_append_of_pos (by simpa using h)]

/-- A text without anything to trim. -/
theorem trimWhile_eq_self (h : ∀ c ∈ s, p c = false) : trimWhile p s = s := by
  have hkeep {l : List Char} (hl : ∀ c ∈ l, p c = false) : l.dropWhile p = l :=
    List.dropWhile_eq_self_iff.2 fun _ => by simp [hl _ (List.getElem_mem _)]
  unfold trimWhile
  rw [hkeep h, hkeep (by simpa using h), List.reverse_reverse]

/-- Nothing is dropped from behind a character that stays. -/
theorem dropWhile_append_cons {x : Char} (hx : p x = false) :
    (s ++ x :: t).dropWhile p = s.dropWhile p ++ x :: t := by
  rw [List.dropWhile_append]
  split
  · next hs => rw [List.isEmpty_iff.1 hs, List.dropWhile_cons_of_neg (by simp [hx])]; rfl
  · rfl

theorem rdropWhile_append_cons {x : Char} (hx : p x = false) :
    (s ++ x :: t).rdropWhile p = s ++ x :: t.rdropWhile p := by
  rw [List.rdropWhile, List.reverse_append, List.reverse_cons, List.append_assoc,
    List.singleton_append, dropWhile_append_cons hx]
  simp [List.rdropWhile]

/-- Trimming around a character that stays trims the outer ends, which does not show once the parts
are trimmed. -/
theorem trimWhile_append_cons {x : Char} (hx : p x = false) :
    ∃ s' t', trimWhile p (s ++ x :: t) = s' ++ x :: t' ∧ s' <:+ s ∧
      trimWhile p s' = trimWhile p s ∧ trimWhile p t' = trimWhile p t := by
  refine ⟨s.dropWhile p, t.rdropWhile p, ?_, List.dropWhile_suffix p, ?_, ?_⟩
  · rw [trimWhile_eq_rdropWhile, dropWhile_append_cons hx, rdropWhile_append_cons hx]
  · calc trimWhile p (s.dropWhile p)
        = trimWhile p (s.takeWhile p ++ s.dropWhile p) :=
          (trimWhile_append_left fun c hc => List.mem_takeWhile_imp hc).symm
      _ = trimWhile p s := by rw [List.takeWhile_append_dropWhile]
  · calc trimWhile p (t.rdropWhile p)
        = trimWhile p (t.rdropWhile p ++ t.rtakeWhile p) :=
          (trimWhile_append_right fun c hc => List.mem_rtakeWhile_imp hc).symm
      _ = trimWhile p t := by rw [List.rdropWhile_append_rtakeWhile]

/-- Making a text lower-case leaves its white space alone. -/
theorem toLower_of_isBlank {c : Char} (h : isBlank c = true) : c.toLower = c := by
  have hupper : ¬ (65 ≤ c.toNat ∧ c.toNat ≤ 90) := by
    simp [isBlank, inRanges, blankRanges] at h
    omega
  unfold Char.toLower
  rw [dif_neg fun hc => hupper (by simpa [UInt32.le_iff_toNat_le] using hc)]

/-! ## Numerals -/

theorem toNat_of_isDigit {c : Char} (h : c.isDigit = true) : 48 ≤ c.toNat ∧ c.toNat ≤ 57 := by
  simpa [Char.isDigit, UInt32.le_iff_toNat_le] using h

theorem isBlank_of_isDigit {c : Char} (h : c.isDigit = true) : isBlank c = false := by
  obtain ⟨hlow, hhigh⟩ := toNat_of_isDigit h
  simp [isBlank, inRanges, blankRanges]
  omega

theorem digitValue?_of_isDigit {c : Char} (h : c.isDigit = true) :
    digitValue? c = some (c.toNat - 48) := by
  obtain ⟨hlow, hhigh⟩ := toNat_of_isDigit h
  have hrange : '0' ≤ c ∧ c ≤ '9' := by
    simpa [Char.le_def, UInt32.le_iff_toNat_le] using And.intro hlow hhigh
  unfold digitValue?
  rw [if_pos (show c.toNat < 0x80 by omega), if_pos hrange]
  rfl

/-- Decimal digits read as the number that they denote. -/
theorem readDigits?_of_isDigit {ds : List Char} (h : ∀ c ∈ ds, c.isDigit = true) (n : Nat) :
    readDigits? n true ds = some (Nat.ofDigitChars 10 ds n) := by
  induction ds generalizing n with
  | nil => rfl
  | cons c cs ih =>
    have hc := h c List.mem_cons_self
    have hne : c ≠ '_' := fun h => by simp [h] at hc
    rw [readDigits?, if_neg hne, digitValue?_of_isDigit hc]
    simp only
    rw [ih fun c hc => h c (List.mem_cons_of_mem _ hc)]
    simp [Nat.ofDigitChars, Nat.mul_comm]

theorem isDigit_of_mem_decimalDigits {n : Nat} {c : Char} (h : c ∈ decimalDigits n) :
    c.isDigit = true :=
  Nat.isDigit_of_mem_toDigits (by decide) (by decide) h

/-- The digits of a number denote it. -/
theorem readInteger?_decimalDigits (n : Nat) : readInteger? (decimalDigits n) = some n := by
  have hdigits : ∀ c ∈ decimalDigits n, c.isDigit = true := fun _ => isDigit_of_mem_decimalDigits
  have hvalue : Nat.ofDigitChars 10 (decimalDigits n) 0 = n :=
    Nat.ofDigitChars_toDigits (by decide) (by decide)
  unfold readInteger?
  rw [trimWhile_eq_self fun c hc => by simp [isMargin, isBlank_of_isDigit (hdigits c hc)]]
  cases hds : decimalDigits n with
  | nil => exact absurd hds Nat.toDigits_ne_nil
  | cons c cs =>
    rw [hds] at hdigits hvalue
    have hne (x : Char) (hx : x.isDigit = false) : c ≠ x := fun h => by
      simp [h, hx] at hdigits
    have hread : readDigits? 0 false (c :: cs) = some n := by
      rw [← hvalue, ← readDigits?_of_isDigit hdigits]
      simp only [readDigits?, hne '_' rfl, if_false]
    split
    · next h => exact absurd (List.cons.inj h).1 (hne '-' rfl)
    · next h => exact absurd (List.cons.inj h).1 (hne '+' rfl)
    · rw [hread]
      rfl

end LanguageServer.Text
