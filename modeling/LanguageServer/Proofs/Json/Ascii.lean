import LanguageServer.Json.Printer
import LanguageServer.Proofs.Text.Trim
import LanguageServer.Text.Utf8

/-!
# Printed JSON is ASCII

Every character of a printed value is an ASCII one, whatever the strings in it hold, so that
each takes one byte and every decoder reads it in the same way.

## Main definitions

* `IsAscii` — all characters are ASCII ones.

## Main statements

* `encodeUtf8_eq_map`, `decodeAscii_encodeUtf8` — the bytes of ASCII.
* `Json.isAscii_print` — printed values are ASCII.
-/

namespace LanguageServer.Text

/-- All characters are ASCII ones. -/
def IsAscii (s : List Char) : Prop := ∀ c ∈ s, c.toNat < 128

instance : DecidablePred IsAscii := fun s =>
  decidable_of_iff (s.all (·.toNat < 128) = true) (by simp [IsAscii])

section IsAscii

variable {s t : List Char} {c : Char}

@[simp] theorem isAscii_nil : IsAscii [] := nofun

@[simp] theorem isAscii_cons : IsAscii (c :: s) ↔ c.toNat < 128 ∧ IsAscii s := List.forall_mem_cons

@[simp] theorem isAscii_append : IsAscii (s ++ t) ↔ IsAscii s ∧ IsAscii t := List.forall_mem_append

theorem IsAscii.subset (h : IsAscii t) (hs : s ⊆ t) : IsAscii s := fun c hc => h c (hs hc)

theorem isAscii_replicate (n : Nat) (hc : c.toNat < 128) : IsAscii (List.replicate n c) :=
  fun _ h => List.eq_of_mem_replicate h ▸ hc

theorem isAscii_decimalDigits (n : Nat) : IsAscii (decimalDigits n) := fun c hc => by
  have := toNat_of_isDigit (isDigit_of_mem_decimalDigits hc)
  omega

theorem isAscii_hexDigits (n width : Nat) : IsAscii (hexDigits n width) := by
  have hdigit : ∀ n < 16, (hexDigit n).toNat < 128 := by decide
  induction width generalizing n with
  | zero => exact isAscii_nil
  | succ width ih =>
    exact isAscii_append.2 ⟨ih _, isAscii_cons.2 ⟨hdigit _ (Nat.mod_lt _ (by decide)), isAscii_nil⟩⟩

end IsAscii

/-! ## Bytes -/

variable {s : List Char}

theorem toNat_ofNat_toNat {c : Char} (hc : c.toNat < 128) : (UInt8.ofNat c.toNat).toNat = c.toNat :=
  Nat.mod_eq_of_lt (by omega)

/-- The bytes of an ASCII text are its code points. -/
theorem encodeUtf8_eq_map (h : IsAscii s) : encodeUtf8 s = s.map fun c => UInt8.ofNat c.toNat := by
  induction s with
  | nil => rfl
  | cons c cs ih =>
    obtain ⟨hc, hcs⟩ := isAscii_cons.1 h
    have hsize : c.utf8Size = 1 :=
      Char.utf8Size_eq_one_iff.2 (UInt32.le_iff_toNat_le.2 (Nat.le_of_lt_succ hc))
    unfold encodeUtf8 at ih ⊢
    rw [List.flatMap_cons, List.map_cons, ih hcs, String.utf8EncodeChar_eq_singleton hsize]
    rfl

theorem length_encodeUtf8 (h : IsAscii s) : (encodeUtf8 s).length = s.length := by
  rw [encodeUtf8_eq_map h, List.length_map]

/-- Only a line feed becomes one. -/
theorem lineFeed_mem_of_mem_encodeUtf8 (h : IsAscii s) (hmem : 10 ∈ encodeUtf8 s) : '\n' ∈ s := by
  rw [encodeUtf8_eq_map h] at hmem
  obtain ⟨c, hc, heq⟩ := List.mem_map.1 hmem
  have hnat : c.toNat = '\n'.toNat := by
    rw [← toNat_ofNat_toNat (h c hc), heq]
    rfl
  exact Char.toNat_inj.1 hnat ▸ hc

theorem decodeAscii_encodeUtf8 (h : IsAscii s) : decodeAscii (encodeUtf8 s) = s := by
  rw [encodeUtf8_eq_map h]
  induction s with
  | nil => rfl
  | cons c cs ih =>
    obtain ⟨hc, hcs⟩ := isAscii_cons.1 h
    unfold decodeAscii at ih ⊢
    rw [List.map_cons, List.map_cons, ih hcs, toNat_ofNat_toNat hc, if_pos hc, Char.ofNat_toNat]

end LanguageServer.Text

namespace LanguageServer

open LanguageServer.Text

/-! ## Numbers -/

namespace Binary64

theorem isAscii_dropTrailingZeros {ds : List Char} (h : IsAscii ds) :
    IsAscii (dropTrailingZeros ds) :=
  h.subset fun _ hc => List.mem_reverse.1 ((List.dropWhile_suffix _).subset (List.mem_reverse.1 hc))

theorem isAscii_positional {ds : List Char} (h : IsAscii ds) (lead : Int) :
    IsAscii (positional ds lead) := by
  unfold positional
  simp only
  split
  · simpa using ⟨isAscii_replicate _ (by decide), h⟩
  · split
    · simpa using ⟨h, isAscii_replicate _ (by decide)⟩
    · simpa using ⟨h.subset (List.take_subset _ _), h.subset (List.drop_subset _ _)⟩

theorem isAscii_scientific (format : NumberFormat) {ds : List Char} (h : IsAscii ds) (lead : Int) :
    IsAscii (scientific format ds lead) := by
  unfold scientific
  have hpadding (n : Nat) : IsAscii (List.replicate n '0') := isAscii_replicate _ (by decide)
  have hsign : (if lead < 0 then '-' else '+').toNat < 128 := by split <;> decide
  cases ds with
  | nil => simp [hpadding, hsign, isAscii_decimalDigits]
  | cons d rest =>
    cases rest with
    | nil => simp_all [isAscii_decimalDigits]
    | cons d' rest => simp_all [isAscii_decimalDigits]

theorem isAscii_text (x : Binary64) : IsAscii (x.text .json) := by
  cases x with
  | nan => decide
  | infinite negative => cases negative <;> decide
  | finite negative m q =>
    have hsign : IsAscii (if negative then ['-'] else []) := by split <;> simp
    refine isAscii_append.2 ⟨hsign, ?_⟩
    split
    · simp
    · have hdigits :=
        isAscii_dropTrailingZeros (isAscii_decimalDigits (Decimal.shortest m q).digits)
      simp only
      split
      · exact isAscii_positional hdigits _
      · exact isAscii_scientific _ hdigits _

end Binary64

/-! ## Values -/

namespace Json

theorem isAscii_printUnit (u : Nat) : IsAscii (printUnit u) := by
  simp [printUnit, isAscii_hexDigits]

theorem isAscii_printChar (c : Char) : IsAscii (printChar c) := by
  unfold printChar
  by_cases hplain : 0x20 ≤ c.toNat ∧ c.toNat < 0x7f
  · have hc : c.toNat < 128 := by omega
    split_ifs <;> simp [hc]
  · split_ifs <;> simp [isAscii_printUnit]

theorem isAscii_printString (s : String) : IsAscii (printString s) := by
  unfold printString
  have hchars : IsAscii (s.toList.flatMap printChar) := fun c hc => by
    obtain ⟨x, -, hx⟩ := List.mem_flatMap.1 hc
    exact isAscii_printChar x c hx
  simpa using hchars

mutual

/-- Printed values are ASCII. -/
theorem isAscii_print (v : Json) : IsAscii (v.print .compact) := by
  cases v with
  | null => simp [print]
  | bool b => cases b <;> simp [print]
  | int i => cases i <;> simp [print, decimalText, isAscii_decimalDigits]
  | float x => exact x.isAscii_text
  | str s => exact isAscii_printString s
  | arr items => simp [print, isAscii_printItems items]
  | obj members => simp [print, isAscii_printMembers members]

theorem isAscii_printItems (items : List Json) : IsAscii (printItems .compact items) := by
  match items with
  | [] => exact isAscii_nil
  | [v] => exact isAscii_print v
  | v :: w :: rest =>
    simpa [printItems, Separators.compact] using ⟨isAscii_print v, isAscii_printItems (w :: rest)⟩

theorem isAscii_printMembers (members : List (String × Json)) :
    IsAscii (printMembers .compact members) := by
  match members with
  | [] => exact isAscii_nil
  | [(k, v)] =>
    simpa [printMembers, Separators.compact] using ⟨isAscii_printString k, isAscii_print v⟩
  | (k, v) :: m :: rest =>
    simpa [printMembers, Separators.compact] using
      ⟨isAscii_printString k, isAscii_print v, isAscii_printMembers (m :: rest)⟩

end

end Json

end LanguageServer
