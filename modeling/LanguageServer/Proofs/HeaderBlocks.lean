import LanguageServer.Proofs.Framing
import LanguageServer.Session.Run

/-!
# Header blocks that announce no length

A header block whose length is missing, or is no numeral, costs its own bytes and nothing
else.  What stands behind it is read as if the stream began there, so a session goes on
with it.

A length below zero is a numeral.  The body that it announces is all that is left of the
stream, whatever stands there.

## Main definitions

* `IsSilentLine` — a line that is no header.
* `HeaderBlock` — the lines up to the blank one behind a header block.
* `HeaderBlock.length?` — the text in the place of the length.

## Main statements

* `ByteStream.readHeaders_block` — a header block is read up to its end.
* `ByteStream.receiveAll_lengthless` — what stands behind a block without a length is still read.
* `ByteStream.receive_negative` — what stands behind a block with a negative length is its body.
-/

namespace LanguageServer

open LanguageServer.Text

/-! ## Blocks -/

/-- The line is no header: there is no colon in it. -/
def IsSilentLine (line : List UInt8) : Prop := 10 ∉ line ∧ ':' ∉ decodeAscii line

/-- The line holds something. -/
def IsFilledLine (line : List UInt8) : Prop := 10 ∉ line ∧ ∃ c ∈ decodeAscii line, isBlank c = false

instance : DecidablePred IsSilentLine := fun line =>
  inferInstanceAs (Decidable (10 ∉ line ∧ ':' ∉ decodeAscii line))

instance : DecidablePred IsFilledLine := fun line =>
  decidable_of_iff (10 ∉ line ∧ (decodeAscii line).any (!isBlank ·) = true) (by simp [IsFilledLine])

/-- The lines of a header block and the blank line that ends it.  Until the first header, lines that
are none do not matter, be they blank or not. -/
structure HeaderBlock where
  silent : List (List UInt8)
  first : List UInt8
  further : List (List UInt8)
  closing : List UInt8
  isSilentLine_of_mem_silent : ∀ line ∈ silent, IsSilentLine line
  notMem_first : 10 ∉ first
  colon_mem_first : ':' ∈ decodeAscii first
  isFilledLine_of_mem_further : ∀ line ∈ further, IsFilledLine line
  isBlankLine_closing : IsBlankLine closing

namespace HeaderBlock

/-- The lines that hold the headers. -/
def lines (b : HeaderBlock) : List (List UInt8) := b.first :: b.further

/-- The bytes of a header block. -/
def bytes (b : HeaderBlock) : List UInt8 :=
  unlines b.silent ++ unlines b.lines ++ unlines [b.closing]

/-- The value of a line, if it is a header with the name that counts. -/
def lengthIn? (line : List UInt8) : Option (List Char) :=
  (cutFirst? ':' (decodeAscii line)).bind fun parts =>
    if (trim parts.1).map Char.toLower = lengthName then some (trim parts.2) else none

/-- The text in the place of the length; the last header with the name counts. -/
def length? (b : HeaderBlock) : Option (List Char) := b.lines.reverse.findSome? lengthIn?

theorem isFilledLine_of_mem_lines (b : HeaderBlock) : ∀ line ∈ b.lines, IsFilledLine line :=
  List.forall_mem_cons.2
    ⟨⟨b.notMem_first, ':', b.colon_mem_first, by decide⟩, b.isFilledLine_of_mem_further⟩

end HeaderBlock

/-! ## Header fields -/

namespace Headers

open HeaderBlock

theorem addLine_silent {line : List UInt8} (hline : IsSilentLine line) (h : Headers) :
    h.addLine (decodeAscii line) = h := by
  unfold addLine
  rw [cutFirst?_eq_none_iff.2 hline.2]

/-- A header puts something among the fields, and a line removes nothing. -/
theorem entries_addLine_ne_nil {h : Headers} {text : List Char}
    (ht : ':' ∈ text ∨ h.entries ≠ []) : (h.addLine text).entries ≠ [] := by
  unfold addLine
  cases hcut : cutFirst? ':' text with
  | none => exact ht.resolve_left (cutFirst?_eq_none_iff.1 hcut)
  | some parts =>
    intro heq
    have hfind := Table.find?_insert h (String.ofList ((trim parts.1).map Char.toLower))
      (String.ofList ((trim parts.1).map Char.toLower)) (String.ofList (trim parts.2))
    simp [Table.find?, heq, Table.findIn] at hfind

theorem entries_addLines_ne_nil {h : Headers} (hne : h.entries ≠ []) (lines : List (List UInt8)) :
    (h.addLines lines).entries ≠ [] := by
  induction lines generalizing h with
  | nil => exact hne
  | cons line rest ih => exact ih (entries_addLine_ne_nil (.inr hne))

/-- A block has fields. -/
theorem entries_addLines_lines (b : HeaderBlock) : (addLines .empty b.lines).entries ≠ [] :=
  entries_addLines_ne_nil (entries_addLine_ne_nil (.inl b.colon_mem_first)) b.further

/-- The length is what the line says, or else what was known of it. -/
theorem find?_addLine (h : Headers) (line : List UInt8) :
    (h.addLine (decodeAscii line)).find? "content-length" =
      ((lengthIn? line).map String.ofList).or (h.find? "content-length") := by
  unfold addLine lengthIn?
  cases cutFirst? ':' (decodeAscii line) with
  | none => rfl
  | some parts =>
    have hname : String.ofList ((trim parts.1).map Char.toLower) = "content-length" ↔
        (trim parts.1).map Char.toLower = lengthName :=
      ⟨fun heq => by rw [← String.toList_ofList (l := List.map _ _), heq]; rfl,
        fun heq => by rw [heq]; rfl⟩
    simp only [Table.find?_insert, Option.bind_some, hname]
    split <;> rfl

/-- Of several lines the last one counts that says a length. -/
theorem find?_addLines (lines : List (List UInt8)) (h : Headers) :
    (h.addLines lines).find? "content-length" =
      ((lines.reverse.findSome? lengthIn?).map String.ofList).or (h.find? "content-length") := by
  induction lines generalizing h with
  | nil => rfl
  | cons line rest ih =>
    have hrest := ih (h.addLine (decodeAscii line))
    rw [find?_addLine] at hrest
    rw [List.reverse_cons, List.findSome?_append, List.findSome?_singleton]
    refine hrest.trans ?_
    cases rest.reverse.findSome? lengthIn? <;> rfl

/-- The announced length is the numeral in the place of the length. -/
theorem contentLength?_addLines (b : HeaderBlock) :
    (addLines .empty b.lines).contentLength? = b.length?.bind readInteger? := by
  unfold contentLength?
  rw [find?_addLines]
  show ((Option.map String.ofList b.length?).or none).bind (fun s => readInteger? s.toList) = _
  rw [Option.or_none, Option.bind_map]
  exact congrArg b.length?.bind (funext fun s => congrArg readInteger? String.toList_ofList)

end Headers

namespace ByteStream

variable {s : ByteStream} {b : HeaderBlock} {rest : List UInt8}

/-! ## Reading a block -/

/-- Before the first header, a line that is none is skipped. -/
theorem readHeaders_silent (hbreak : s.breakAfter = none) {lines : List (List UInt8)}
    (hlines : ∀ line ∈ lines, IsSilentLine line) (h : s.rest = unlines lines ++ rest) :
    s.readHeaders .empty = (s.skip (unlines lines).length).readHeaders .empty := by
  induction lines generalizing s with
  | nil => simp [skip]
  | cons line lines ih =>
    obtain ⟨hline, hlines⟩ := List.forall_mem_cons.1 hlines
    have h' : s.rest = line ++ 10 :: (unlines lines ++ rest) := by simpa using h
    have hnext : s.readHeaders .empty = (s.skip (line.length + 1)).readHeaders .empty := by
      rw [readHeaders_line hbreak hline.1 h', Headers.addLine_silent hline,
        if_neg (show ¬(Table.empty : Headers).entries ≠ [] by simp [Table.empty])]
      exact ite_self _
    rw [hnext, length_unlines_cons, ← skip_skip s (line.length + 1)]
    exact ih (s := s.skip _) hbreak hlines (rest_skip_line h')

/-- A header block is read up to its end. -/
theorem readHeaders_block (hbreak : s.breakAfter = none) (h : s.rest = b.bytes ++ rest) :
    s.readHeaders .empty = (.block (Headers.addLines .empty b.lines), s.skip b.bytes.length) := by
  have hbytes : s.rest =
      unlines b.silent ++ (unlines b.lines ++ (b.closing ++ 10 :: rest)) := by
    simp [h, HeaderBlock.bytes]
  have hrest := rest_skip hbytes
  have hrest' := rest_skip hrest
  have hclosing : ¬ trim (decodeAscii b.closing) ≠ [] :=
    not_not_intro (trimWhile_eq_nil_iff.2 b.isBlankLine_closing.2)
  have hlength : b.bytes.length =
      (unlines b.silent).length + (unlines b.lines).length + (b.closing.length + 1) := by
    simp only [HeaderBlock.bytes, List.length_append, length_unlines_cons, unlines_nil,
      List.length_nil]
  rw [readHeaders_silent hbreak b.isSilentLine_of_mem_silent hbytes,
    readHeaders_lines (s := s.skip _) hbreak b.isFilledLine_of_mem_lines hrest,
    readHeaders_line (s := (s.skip _).skip _) hbreak b.isBlankLine_closing.1 hrest',
    if_neg hclosing, if_pos (Headers.entries_addLines_lines b), skip_skip, skip_skip,
    hlength, Nat.add_assoc]

/-- A block without a length costs its own bytes. -/
theorem receive_lengthless (hbreak : s.breakAfter = none) (h : s.rest = b.bytes ++ rest)
    (hlength : b.length?.bind readInteger? = none) :
    s.receive = (.malformed FrameError.contentLength.message, s.skip b.bytes.length) := by
  unfold receive
  simp only [readHeaders_block hbreak h, Headers.contentLength?_addLines, hlength]

/-- The body that a negative length announces is all that is left. -/
theorem receive_negative (hbreak : s.breakAfter = none) (h : s.rest = b.bytes ++ rest) {n : Int}
    (hlength : b.length?.bind readInteger? = some n) (hn : n < 0)
    (hlongest : ∀ m ∈ s.longest, -(m : Int) - 1 ≤ n) :
    s.receive = (decodeBody rest, s.skip s.rest.length) := by
  have hbroken : (s.skip b.bytes.length).isBroken = false := by simp [isBroken, skip, hbreak]
  have hexceeds : (s.skip b.bytes.length).exceeds n = false := by
    unfold exceeds
    rw [show (s.skip b.bytes.length).longest = s.longest from rfl]
    cases hl : s.longest with
    | none => rfl
    | some longest =>
      have := hlongest longest hl
      simp
      omega
  have hrest : (s.skip b.bytes.length).rest = rest := rest_skip h
  unfold receive
  simp only [readHeaders_block hbreak h, Headers.contentLength?_addLines, hlength, readBody,
    hbroken, hexceeds, Bool.false_eq_true, if_false, if_pos hn, hrest, skip_skip]
  simp [h]

/-- What stands behind a block without a length is still read. -/
theorem receiveAll_lengthless (hbreak : s.breakAfter = none) (h : s.rest = b.bytes ++ rest)
    (hlength : b.length?.bind readInteger? = none) :
    s.receiveAll.1 = .malformed FrameError.contentLength.message ::
      (s.skip b.bytes.length).receiveAll.1 := by
  have hreceive := receive_lengthless hbreak h hlength
  rw [receiveAll, dif_pos (by rw [hreceive]; rfl), hreceive]

end ByteStream

namespace Session

open Serving

variable {γ : Type} {caps : Capabilities γ} {session : Session γ}

/-- The session after an event that is a malformed message: the client is told. -/
def informed (session : Session γ) (reason : String) : Session γ :=
  { session.cleared with outbox := [.failure .null (.of .parseError reason)] }

/-- A session goes on after a malformed message. -/
theorem runAll_malformed (hexited : session.lifecycle ≠ .exited) (hworking : session.failing = 0)
    (reason : String) (l : List Event) :
    runAll caps session (.arrival (.malformed reason) :: l) =
      { runAll caps (session.informed reason) l with
        steps := session.informed reason :: (runAll caps (session.informed reason) l).steps } := by
  have hstep : step caps (.arrival (.malformed reason)) session.cleared =
      .ok () (session.informed reason) := by
    simp [step, send, cleared, hworking, informed]
  rw [runAll, if_neg hexited, if_neg (by simp [isClosing])]
  simp only [hstep]

/-- A header block whose length is missing or no numeral costs its own bytes: the message is
malformed, and what stands behind the block is read as if the stream began there.  A session tells
the client and goes on with it. -/
theorem serve_lengthless {s : ByteStream} (hbreak : s.breakAfter = none) {b : HeaderBlock}
    {rest : List UInt8} (h : s.rest = b.bytes ++ rest)
    (hlength : b.length?.bind readInteger? = none) :
    s.receive = (.malformed FrameError.contentLength.message, s.skip b.bytes.length) ∧
      (s.skip b.bytes.length).rest = rest ∧
      ∀ {γ : Type} (caps : Capabilities γ) {session : Session γ}, session.lifecycle ≠ .exited →
        session.failing = 0 →
        serve caps session s =
          let told := session.informed FrameError.contentLength.message
          let course := serve caps told (s.skip b.bytes.length)
          { course with steps := told :: course.steps } := by
  refine ⟨ByteStream.receive_lengthless hbreak h hlength, ByteStream.rest_skip h, ?_⟩
  intro γ caps session hexited hworking
  unfold serve
  rw [ByteStream.receiveAll_lengthless hbreak h hlength, List.map_cons]
  exact runAll_malformed hexited hworking _ _

end Session

/-- A block whose last length is no numeral, behind a blank line and a line that is no header. -/
def HeaderBlock.wordy : HeaderBlock where
  silent := [[13], encodeUtf8 "content-length\r".toList]
  first := encodeUtf8 "Content-Length: 2\r".toList
  further := [encodeUtf8 "again\r".toList, encodeUtf8 "CONTENT-LENGTH : two\r".toList]
  closing := [13]
  isSilentLine_of_mem_silent := by decide
  notMem_first := by decide
  colon_mem_first := by decide
  isFilledLine_of_mem_further := by decide
  isBlankLine_closing := FramedBody.untidy.isBlankLine_closing

/-- A frame behind such a block is read. -/
theorem Session.serve_lengthless_wordy :
    HeaderBlock.wordy.length? = some "two".toList ∧
      ({ rest := HeaderBlock.wordy.bytes ++ FramedBody.untidy.bytes } : ByteStream).receive.1 =
        .malformed FrameError.contentLength.message ∧
      (({ rest := HeaderBlock.wordy.bytes ++ FramedBody.untidy.bytes } : ByteStream).skip
        HeaderBlock.wordy.bytes.length).rest = FramedBody.untidy.bytes := by
  have hlength : HeaderBlock.wordy.length? = some "two".toList := by decide
  obtain ⟨hreceive, hrest, -⟩ := serve_lengthless
    (s := { rest := HeaderBlock.wordy.bytes ++ FramedBody.untidy.bytes }) rfl (b := .wordy) rfl
    (by rw [hlength]; decide)
  exact ⟨hlength, by rw [hreceive], hrest⟩

end LanguageServer
