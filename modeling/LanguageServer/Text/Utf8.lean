/-!
# UTF-8

Bytes to characters and back.  Decoding is one machine that reads a byte at a time
and remembers how many continuation bytes are still due and in which interval the
next one must lie.  The interval of the first continuation byte excludes overlong
forms, surrogates and values above U+10FFFF.  A sequence that breaks off yields one
mark for all its bytes so far, and the byte that broke it is read afresh.

## Main definitions

* `encodeUtf8 s` — the bytes of a text.
* `decodeMarked bs` — the characters of `bs`, with `none` for each ill-formed sequence.
* `decodeUtf8? bs` — the text of `bs` if all of it is well formed.
* `decodeReplacing bs` — the text of `bs` with U+FFFD for each ill-formed sequence.
-/

namespace LanguageServer.Text

/-- The bytes of a text. -/
def encodeUtf8 (s : List Char) : List UInt8 := s.flatMap String.utf8EncodeChar

@[simp] theorem encodeUtf8_append (s t : List Char) :
    encodeUtf8 (s ++ t) = encodeUtf8 s ++ encodeUtf8 t := List.flatMap_append

/-- A character whose first bytes have been read. -/
structure Pending where
  /-- The bits read so far. -/
  bits : Nat
  /-- How many continuation bytes follow the next one. -/
  after : Nat
  /-- The interval in which the next byte must lie. -/
  low : Nat
  high : Nat

/-- What a byte means where a character may begin. -/
inductive Lead where
  | char (c : Char)
  | pending (p : Pending)
  | illFormed

/-- Reads the first byte of a character. -/
def lead (b : Nat) : Lead :=
  if b < 0x80 then .char (Char.ofNat b)
  else if b < 0xC2 then .illFormed
  else if b < 0xE0 then .pending ⟨b - 0xC0, 0, 0x80, 0xBF⟩
  else if b = 0xE0 then .pending ⟨0, 1, 0xA0, 0xBF⟩
  else if b = 0xED then .pending ⟨0xD, 1, 0x80, 0x9F⟩
  else if b < 0xF0 then .pending ⟨b - 0xE0, 1, 0x80, 0xBF⟩
  else if b = 0xF0 then .pending ⟨0, 2, 0x90, 0xBF⟩
  else if b < 0xF4 then .pending ⟨b - 0xF0, 2, 0x80, 0xBF⟩
  else if b = 0xF4 then .pending ⟨4, 2, 0x80, 0x8F⟩
  else .illFormed

/-- Decodes bytes, given the character that is under way. -/
def decodeFrom : Option Pending → List UInt8 → List (Option Char)
  | none, [] => []
  | some _, [] => [none]
  | none, b :: bs =>
    match lead b.toNat with
    | .char c => some c :: decodeFrom none bs
    | .pending p => decodeFrom (some p) bs
    | .illFormed => none :: decodeFrom none bs
  | some p, b :: bs =>
    if p.low ≤ b.toNat ∧ b.toNat ≤ p.high then
      let bits := p.bits * 64 + b.toNat % 64
      match p.after with
      | 0 => some (Char.ofNat bits) :: decodeFrom none bs
      | n + 1 => decodeFrom (some ⟨bits, n, 0x80, 0xBF⟩) bs
    else
      match lead b.toNat with
      | .char c => none :: some c :: decodeFrom none bs
      | .pending p' => none :: decodeFrom (some p') bs
      | .illFormed => none :: none :: decodeFrom none bs

/-- The characters of `bs`, with `none` for each ill-formed sequence. -/
def decodeMarked (bs : List UInt8) : List (Option Char) := decodeFrom none bs

/-- The text of `bs`, if all of it is well formed. -/
def decodeUtf8? (bs : List UInt8) : Option (List Char) := (decodeMarked bs).mapM id

/-- The mark that stands for an ill-formed sequence. -/
def replacement : Char := '\uFFFD'

/-- The text of `bs`, with U+FFFD in place of each ill-formed sequence. -/
def decodeReplacing (bs : List UInt8) : List Char := (decodeMarked bs).map (·.getD replacement)

/-- The text of a header: ASCII bytes stand for themselves and every other byte for U+FFFD. -/
def decodeAscii (bs : List UInt8) : List Char :=
  bs.map fun b => if b.toNat < 0x80 then Char.ofNat b.toNat else replacement

end LanguageServer.Text
