import LanguageServer.Text.Utf8

/-!
# UTF-8 is read back

The bytes of a text are decoded to this text, whatever characters it holds.  A character is
read in as many steps as it has bytes.  The interval that the first byte leaves for the
second one is narrower than that of all continuation bytes for four first bytes; the
second byte of a character lies in it, because no character is a surrogate, none is greater than
U+10FFFF, and each is written in as few bytes as possible.

## Main statements

* `decodeFrom_utf8EncodeChar` — the bytes of one character are read as this character.
* `decodeUtf8?_encodeUtf8`, `decodeReplacing_encodeUtf8` — the bytes of a text are read as this text.
-/

namespace LanguageServer.Text

/-! ## Single steps -/

/-- The first of two bytes. -/
theorem lead_of_two {v : Nat} (hlow : 0x7F < v) (hhigh : v ≤ 0x7FF) :
    lead (v / 64 % 32 + 192) = .pending ⟨v / 64, 0, 0x80, 0xBF⟩ := by
  unfold lead
  rw [if_neg (by omega), if_neg (by omega), if_pos (by omega),
    show v / 64 % 32 + 192 - 0xC0 = v / 64 by omega]

/-- The first of three bytes, and what it says of the second one. -/
theorem exists_lead_of_three {v : Nat} (hlow : 0x7FF < v) (hhigh : v ≤ 0xFFFF)
    (hvalid : v < 0xD800 ∨ 0xDFFF < v) :
    ∃ low high, lead (v / 4096 % 16 + 224) = .pending ⟨v / 4096, 1, low, high⟩ ∧
      low ≤ v / 64 % 64 + 128 ∧ v / 64 % 64 + 128 ≤ high := by
  unfold lead
  rw [if_neg (by omega), if_neg (by omega), if_neg (by omega)]
  split
  · exact ⟨0xA0, 0xBF, by rw [show v / 4096 = 0 by omega], by omega, by omega⟩
  · split
    · exact ⟨0x80, 0x9F, by rw [show v / 4096 = 0xD by omega], by omega, by omega⟩
    · rw [if_pos (by omega)]
      exact ⟨0x80, 0xBF, by rw [show v / 4096 % 16 + 224 - 0xE0 = v / 4096 by omega],
        by omega, by omega⟩

/-- The first of four bytes, and what it says of the second one. -/
theorem exists_lead_of_four {v : Nat} (hlow : 0xFFFF < v) (hhigh : v < 0x110000) :
    ∃ low high, lead (v / 262144 % 8 + 240) = .pending ⟨v / 262144, 2, low, high⟩ ∧
      low ≤ v / 4096 % 64 + 128 ∧ v / 4096 % 64 + 128 ≤ high := by
  unfold lead
  rw [if_neg (by omega), if_neg (by omega), if_neg (by omega), if_neg (by omega),
    if_neg (by omega), if_neg (by omega)]
  split
  · exact ⟨0x90, 0xBF, by rw [show v / 262144 = 0 by omega], by omega, by omega⟩
  · split
    · exact ⟨0x80, 0xBF, by rw [show v / 262144 % 8 + 240 - 0xF0 = v / 262144 by omega],
        by omega, by omega⟩
    · rw [if_pos (by omega)]
      exact ⟨0x80, 0x8F, by rw [show v / 262144 = 4 by omega], by omega, by omega⟩

variable {bits n low high b : Nat}

theorem decodeFrom_lead {p : Pending} (hb : b < 256) (h : lead b = .pending p) (bs : List UInt8) :
    decodeFrom none (UInt8.ofNat b :: bs) = decodeFrom (some p) bs := by
  rw [decodeFrom, UInt8.toNat_ofNat_of_lt' hb, h]

/-- A byte after which others are due. -/
theorem decodeFrom_more (hb : b < 256) (hlow : low ≤ b) (hhigh : b ≤ high) (bs : List UInt8) :
    decodeFrom (some ⟨bits, n + 1, low, high⟩) (UInt8.ofNat b :: bs) =
      decodeFrom (some ⟨bits * 64 + b % 64, n, 0x80, 0xBF⟩) bs := by
  rw [decodeFrom, UInt8.toNat_ofNat_of_lt' hb, if_pos ⟨hlow, hhigh⟩]

/-- The last byte of a character. -/
theorem decodeFrom_last (hb : b < 256) (hlow : low ≤ b) (hhigh : b ≤ high) (bs : List UInt8) :
    decodeFrom (some ⟨bits, 0, low, high⟩) (UInt8.ofNat b :: bs) =
      some (Char.ofNat (bits * 64 + b % 64)) :: decodeFrom none bs := by
  rw [decodeFrom, UInt8.toNat_ofNat_of_lt' hb, if_pos ⟨hlow, hhigh⟩]

/-! ## Characters and texts -/

/-- The bytes of a character are read as this character, whatever follows. -/
theorem decodeFrom_utf8EncodeChar (c : Char) (bs : List UInt8) :
    decodeFrom none (String.utf8EncodeChar c ++ bs) = some c :: decodeFrom none bs := by
  have hvalid : c.toNat < 0xD800 ∨ 0xDFFF < c.toNat ∧ c.toNat < 0x110000 := c.valid
  have hchar {v : Nat} (h : v = c.toNat) : Char.ofNat v = c := h ▸ Char.ofNat_toNat c
  have hbytes : String.utf8EncodeChar c =
      if c.toNat ≤ 127 then [UInt8.ofNat c.toNat]
      else if c.toNat ≤ 2047 then
        [UInt8.ofNat (c.toNat / 64 % 32 + 192), UInt8.ofNat (c.toNat % 64 + 128)]
      else if c.toNat ≤ 65535 then
        [UInt8.ofNat (c.toNat / 4096 % 16 + 224), UInt8.ofNat (c.toNat / 64 % 64 + 128),
          UInt8.ofNat (c.toNat % 64 + 128)]
      else
        [UInt8.ofNat (c.toNat / 262144 % 8 + 240), UInt8.ofNat (c.toNat / 4096 % 64 + 128),
          UInt8.ofNat (c.toNat / 64 % 64 + 128), UInt8.ofNat (c.toNat % 64 + 128)] := rfl
  generalize c.toNat = v at hvalid hchar hbytes
  rw [hbytes]
  split
  · -- one byte
    have hlead : lead v = .char (Char.ofNat v) := by
      unfold lead
      rw [if_pos (by omega)]
    rw [List.singleton_append, decodeFrom, UInt8.toNat_ofNat_of_lt' (show v < 256 by omega), hlead]
    simp only [hchar rfl]
  · split
    · -- two bytes
      simp only [List.cons_append, List.nil_append]
      rw [decodeFrom_lead (by omega) (lead_of_two (by omega) (by omega)),
        decodeFrom_last (by omega) (by omega) (by omega), hchar (by omega)]
    · split
      · -- three bytes
        obtain ⟨low, high, hlead, hlow, hhigh⟩ :=
          exists_lead_of_three (v := v) (by omega) (by omega) (by omega)
        simp only [List.cons_append, List.nil_append]
        rw [decodeFrom_lead (by omega) hlead, decodeFrom_more (by omega) hlow hhigh,
          decodeFrom_last (by omega) (by omega) (by omega), hchar (by omega)]
      · -- four bytes
        obtain ⟨low, high, hlead, hlow, hhigh⟩ :=
          exists_lead_of_four (v := v) (by omega) (by omega)
        simp only [List.cons_append, List.nil_append]
        rw [decodeFrom_lead (by omega) hlead, decodeFrom_more (by omega) hlow hhigh,
          decodeFrom_more (by omega) (by omega) (by omega),
          decodeFrom_last (by omega) (by omega) (by omega), hchar (by omega)]

theorem decodeMarked_encodeUtf8 (s : List Char) : decodeMarked (encodeUtf8 s) = s.map some := by
  induction s with
  | nil => rfl
  | cons c cs ih =>
    have hcons : encodeUtf8 (c :: cs) = String.utf8EncodeChar c ++ encodeUtf8 cs := List.flatMap_cons
    rw [decodeMarked, hcons, decodeFrom_utf8EncodeChar, List.map_cons]
    exact congrArg _ ih

/-- The bytes of a text are well formed and stand for it. -/
theorem decodeUtf8?_encodeUtf8 (s : List Char) : decodeUtf8? (encodeUtf8 s) = some s := by
  rw [decodeUtf8?, decodeMarked_encodeUtf8]
  induction s with
  | nil => rfl
  | cons c cs ih =>
    rw [List.map_cons, List.mapM_cons, ih]
    rfl

/-- The bytes of a text are read as this text. -/
theorem decodeReplacing_encodeUtf8 (s : List Char) : decodeReplacing (encodeUtf8 s) = s := by
  rw [decodeReplacing, decodeMarked_encodeUtf8, List.map_map]
  exact List.map_id s

end LanguageServer.Text
