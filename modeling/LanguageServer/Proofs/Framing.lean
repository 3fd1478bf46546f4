import LanguageServer.Framing
import LanguageServer.Proofs.Json.Ascii
import LanguageServer.Proofs.Text.Utf8
import Mathlib.Data.List.Forall2

/-!
# Reading framed messages

A stream of frames reads back frame by frame: whatever stands in a body, and however the
headers before it are written, as long as one of them announces its length.  A body that
cannot be decoded costs its own frame and nothing else.  What is sent is framed in this
way, with one header.

## Main definitions

* `IsBlankLine`, `IsOtherLine`, `Announces` — the lines around a body.
* `FramedBody` — a body between well-formed lines.
* `ByteStream.Decodes` — what a body yields.
* `sentBytes` — the bytes of messages that are sent.

## Main statements

* `ByteStream.receive_framed` — a frame is read to its end, and its body decoded.
* `ByteStream.receiveAll_frames` — so are all frames of a stream, until it ends.
* `ByteStream.receiveAll_sent` — messages that were sent are the ones received.
* `ByteStream.receiveAll_exchange` — both, with what a body yields.
-/

namespace LanguageServer

open LanguageServer.Text

/-! ## Lines -/

/-- The line holds nothing but white space. -/
def IsBlankLine (line : List UInt8) : Prop :=
  10 ∉ line ∧ ∀ c ∈ decodeAscii line, isBlank c = true

/-- The name of the header that counts. -/
def lengthName : List Char := "content-length".toList

/-- The line holds something, and is no header with the name that counts. -/
def IsOtherLine (line : List UInt8) : Prop :=
  10 ∉ line ∧ (∃ c ∈ decodeAscii line, isBlank c = false) ∧
    ∀ name value, decodeAscii line = name ++ ':' :: value → ':' ∉ name →
      (trim name).map Char.toLower ≠ lengthName

instance : DecidablePred IsBlankLine := fun line =>
  decidable_of_iff (10 ∉ line ∧ (decodeAscii line).all isBlank = true) (by simp [IsBlankLine])

theorem isOtherLine_iff {line : List UInt8} :
    IsOtherLine line ↔ 10 ∉ line ∧ (decodeAscii line).any (!isBlank ·) = true ∧
      ∀ parts ∈ cutFirst? ':' (decodeAscii line), (trim parts.1).map Char.toLower ≠ lengthName := by
  simp only [IsOtherLine, Option.mem_def, Prod.forall, cutFirst?_eq_some_iff, and_imp,
    List.any_eq_true, Bool.not_eq_true']

instance : DecidablePred IsOtherLine := fun _ => decidable_of_iff _ isOtherLine_iff.symm

/-- The line is a header that announces `n` bytes, in letters of any case and with any white space
around its parts. -/
def Announces (n : Nat) (line : List UInt8) : Prop :=
  10 ∉ line ∧ ∃ name before behind inner outer,
    decodeAscii line = before ++ name ++ behind ++ ':' :: (inner ++ decimalDigits n ++ outer) ∧
      name.map Char.toLower = lengthName ∧
      ∀ c ∈ before ++ behind ++ inner ++ outer, isBlank c = true

/-- The lines, each with its line feed. -/
def unlines (lines : List (List UInt8)) : List UInt8 := lines.flatMap (· ++ [10])

@[simp] theorem unlines_nil : unlines [] = [] := rfl

@[simp] theorem unlines_cons (line : List UInt8) (lines : List (List UInt8)) :
    unlines (line :: lines) = line ++ 10 :: unlines lines := by simp [unlines]

theorem length_unlines_cons (line : List UInt8) (lines : List (List UInt8)) :
    (unlines (line :: lines)).length = line.length + 1 + (unlines lines).length := by
  simp
  omega

/-- A body, the lines before it, and the lines between which its length is announced. -/
structure FramedBody where
  blanks : List (List UInt8)
  before : List (List UInt8)
  length : List UInt8
  behind : List (List UInt8)
  closing : List UInt8
  body : List UInt8
  isBlankLine_of_mem_blanks : ∀ line ∈ blanks, IsBlankLine line
  isOtherLine_of_mem_before : ∀ line ∈ before, IsOtherLine line
  announces : Announces body.length length
  isOtherLine_of_mem_behind : ∀ line ∈ behind, IsOtherLine line
  isBlankLine_closing : IsBlankLine closing

/-- The header lines of a frame. -/
def FramedBody.headers (f : FramedBody) : List (List UInt8) := f.before ++ f.length :: f.behind

/-- The bytes of a frame. -/
def FramedBody.bytes (f : FramedBody) : List UInt8 :=
  unlines f.blanks ++ unlines f.headers ++ unlines [f.closing] ++ f.body

/-! ## Header fields -/

namespace Headers

variable {h : Headers} {line : List UInt8} {n : Nat}

/-- White space around a line does not matter. -/
theorem addLine_trim (h : Headers) (t : List Char) : h.addLine (trim t) = h.addLine t := by
  unfold addLine
  cases hcut : cutFirst? ':' t with
  | none =>
    have hnone : cutFirst? ':' (trim t) = none := by
      rw [cutFirst?_eq_none_iff] at hcut ⊢
      exact fun hmem => hcut (trimWhile_subset hmem)
    rw [hnone]
  | some parts =>
    obtain ⟨name, value⟩ := parts
    obtain ⟨rfl, hname⟩ := cutFirst?_eq_some_iff.1 hcut
    obtain ⟨name', value', htrim, hsub, hname', hvalue'⟩ :=
      trimWhile_append_cons (p := isBlank) (s := name) (t := value) (x := ':') (by decide)
    have hcut' : cutFirst? ':' (trim (name ++ ':' :: value)) = some (name', value') :=
      cutFirst?_eq_some_iff.2 ⟨htrim, fun hmem => hname (hsub.subset hmem)⟩
    rw [hcut']
    simp only [trim, hname', hvalue']

/-- Another line leaves the length alone. -/
theorem find?_addLine_other (hline : IsOtherLine line) (h : Headers) :
    (h.addLine (decodeAscii line)).find? "content-length" = h.find? "content-length" := by
  unfold addLine
  cases hcut : cutFirst? ':' (decodeAscii line) with
  | none => rfl
  | some parts =>
    obtain ⟨hparts, hname⟩ := cutFirst?_eq_some_iff.1 hcut
    have hne := hline.2.2 _ _ hparts hname
    rw [Table.find?_insert, if_neg fun heq => hne ?_]
    rw [← String.toList_ofList (l := List.map _ _), heq]
    rfl

/-- The name that counts has neither colons nor white space in it. -/
theorem of_map_toLower {name : List Char} (hname : name.map Char.toLower = lengthName) :
    ∀ c ∈ name, c ≠ ':' ∧ isBlank c = false := by
  intro c hc
  have hmem : c.toLower ∈ lengthName := hname ▸ List.mem_map_of_mem hc
  refine ⟨fun h => absurd (h ▸ hmem) (by decide), Bool.eq_false_iff.2 fun h => ?_⟩
  rw [toLower_of_isBlank h] at hmem
  have hnone : lengthName.all (!isBlank ·) = true := by decide
  simpa [h] using List.all_eq_true.1 hnone _ hmem

/-- A line that announces a length says it. -/
theorem find?_addLine_announces (hline : Announces n line) (h : Headers) :
    (h.addLine (decodeAscii line)).find? "content-length" =
      some (String.ofList (decimalDigits n)) := by
  obtain ⟨-, name, before, behind, inner, outer, hdecode, hname, hblank⟩ := hline
  simp only [List.forall_mem_append] at hblank
  obtain ⟨⟨⟨hbefore, hbehind⟩, hinner⟩, houter⟩ := hblank
  have hletters := of_map_toLower hname
  have hcolon : ':' ∉ before ++ name ++ behind := by
    have hmargin {l : List Char} (hl : ∀ c ∈ l, isBlank c = true) : ':' ∉ l :=
      fun hmem => absurd (hl _ hmem) (by decide)
    simp only [List.mem_append, not_or]
    exact ⟨⟨hmargin hbefore, fun hmem => (hletters _ hmem).1 rfl⟩, hmargin hbehind⟩
  have hcut : cutFirst? ':' (decodeAscii line) =
      some (before ++ name ++ behind, inner ++ decimalDigits n ++ outer) :=
    cutFirst?_eq_some_iff.2 ⟨hdecode, hcolon⟩
  have htrimName : trim (before ++ name ++ behind) = name := by
    rw [trim, trimWhile_append_right hbehind, trimWhile_append_left hbefore,
      trimWhile_eq_self fun c hc => (hletters c hc).2]
  have htrimValue : trim (inner ++ decimalDigits n ++ outer) = decimalDigits n := by
    rw [trim, trimWhile_append_right houter, trimWhile_append_left hinner,
      trimWhile_eq_self fun c hc => isBlank_of_isDigit (isDigit_of_mem_decimalDigits hc)]
  unfold addLine
  simp only [hcut, htrimName, htrimValue, hname, Table.find?_insert]
  rfl

/-- The fields of the lines that were read so far. -/
def addLines (h : Headers) (lines : List (List UInt8)) : Headers :=
  lines.foldl (fun h line => h.addLine (decodeAscii line)) h

theorem find?_addLines_other {lines : List (List UInt8)} (hlines : ∀ line ∈ lines, IsOtherLine line)
    (h : Headers) : (h.addLines lines).find? "content-length" = h.find? "content-length" := by
  induction lines generalizing h with
  | nil => rfl
  | cons line rest ih =>
    obtain ⟨hline, hrest⟩ := List.forall_mem_cons.1 hlines
    exact (ih hrest _).trans (find?_addLine_other hline h)

/-- The headers of a frame say the length of its body. -/
theorem contentLength?_addLines_headers (f : FramedBody) (h : Headers) :
    (h.addLines f.headers).contentLength? = some (f.body.length : Int) := by
  have hfind : (h.addLines f.headers).find? "content-length" =
      some (String.ofList (decimalDigits f.body.length)) := by
    unfold addLines FramedBody.headers
    rw [List.foldl_append, List.foldl_cons]
    exact (find?_addLines_other f.isOtherLine_of_mem_behind _).trans
      (find?_addLine_announces f.announces _)
  unfold contentLength?
  rw [hfind]
  exact (congrArg readInteger? String.toList_ofList).trans (readInteger?_decimalDigits _)

end Headers

/-! ## Reading a frame -/

namespace ByteStream

variable {s : ByteStream} {line bs rest : List UInt8} {lines : List (List UInt8)}

theorem cutLine_append_cons (hline : 10 ∉ line) (rest : List UInt8) :
    cutLine (line ++ 10 :: rest) = (line ++ [10], rest) := by
  induction line with
  | nil => rfl
  | cons b bs ih =>
    obtain ⟨hb, hbs⟩ := not_or.1 fun h => hline (List.mem_cons.2 h)
    rw [List.cons_append, cutLine, if_neg (Ne.symm hb), ih hbs]
    rfl

theorem rest_skip (h : s.rest = bs ++ rest) : (s.skip bs.length).rest = rest := by
  simp [skip, h]

theorem rest_skip_line (h : s.rest = line ++ 10 :: rest) :
    (s.skip (line.length + 1)).rest = rest := by
  simp [skip, h]

theorem skip_zero (s : ByteStream) : s.skip 0 = s := by simp [skip]

theorem skip_skip (s : ByteStream) (m n : Nat) : (s.skip m).skip n = s.skip (m + n) := by
  simp only [skip, List.drop_drop, List.length_drop, ByteStream.mk.injEq, and_true, true_and]
  omega

theorem skipLine_eq_skip (hline : 10 ∉ line) (h : s.rest = line ++ 10 :: rest) :
    s.skipLine = s.skip (line.length + 1) := by
  unfold skipLine skip
  rw [h, cutLine_append_cons hline]
  simp

/-- The line feed of a line does not matter to what is read. -/
theorem trim_decodeAscii_append (line : List UInt8) :
    trim (decodeAscii (line ++ [10])) = trim (decodeAscii line) := by
  unfold decodeAscii
  rw [List.map_append]
  exact trimWhile_append_right (List.all_eq_true.1 (by decide))

/-- What reading one line does. -/
theorem readHeaders_line (hbreak : s.breakAfter = none) (hline : 10 ∉ line)
    (h : s.rest = line ++ 10 :: rest) (headers : Headers) :
    s.readHeaders headers =
      if trim (decodeAscii line) ≠ [] then
        (s.skip (line.length + 1)).readHeaders (headers.addLine (decodeAscii line))
      else if headers.entries ≠ [] then (.block headers, s.skip (line.length + 1))
      else (s.skip (line.length + 1)).readHeaders headers := by
  rw [readHeaders, if_neg (by simp [isBroken, hbreak]), dif_neg (by simp [h]),
    skipLine_eq_skip hline h]
  simp only [h, cutLine_append_cons hline, trim_decodeAscii_append, Headers.addLine_trim]

/-- Blank lines before the headers are skipped. -/
theorem readHeaders_blanks (hbreak : s.breakAfter = none)
    (hlines : ∀ line ∈ lines, IsBlankLine line) (h : s.rest = unlines lines ++ rest) :
    s.readHeaders .empty = (s.skip (unlines lines).length).readHeaders .empty := by
  induction lines generalizing s with
  | nil => simp [skip]
  | cons line lines ih =>
    obtain ⟨⟨hline, hblank⟩, hlines⟩ := List.forall_mem_cons.1 hlines
    have h' : s.rest = line ++ 10 :: (unlines lines ++ rest) := by simpa using h
    rw [readHeaders_line hbreak hline h',
      if_neg (by simpa [trim, trimWhile_eq_nil_iff] using hblank),
      if_neg (by simp [Table.empty]), length_unlines_cons, ← skip_skip s (line.length + 1)]
    exact ih (s := s.skip _) hbreak hlines (rest_skip_line h')

/-- Lines that hold something are taken up one by one. -/
theorem readHeaders_lines (hbreak : s.breakAfter = none)
    (hlines : ∀ line ∈ lines, 10 ∉ line ∧ ∃ c ∈ decodeAscii line, isBlank c = false)
    (h : s.rest = unlines lines ++ rest) (headers : Headers) :
    s.readHeaders headers =
      (s.skip (unlines lines).length).readHeaders (headers.addLines lines) := by
  induction lines generalizing s headers with
  | nil => simp [skip, Headers.addLines]
  | cons line lines ih =>
    obtain ⟨⟨hline, c, hc, hblank⟩, hlines⟩ := List.forall_mem_cons.1 hlines
    have h' : s.rest = line ++ 10 :: (unlines lines ++ rest) := by simpa using h
    have htext : trim (decodeAscii line) ≠ [] := fun heq => by
      rw [trimWhile_eq_nil_iff.1 heq c hc] at hblank
      cases hblank
    rw [readHeaders_line hbreak hline h', if_pos htext, length_unlines_cons,
      ← skip_skip s (line.length + 1)]
    exact ih (s := s.skip _) hbreak hlines (rest_skip_line h') _

end ByteStream

/-- Each header line of a frame holds something. -/
theorem FramedBody.exists_of_mem_headers (f : FramedBody) :
    ∀ line ∈ f.headers, 10 ∉ line ∧ ∃ c ∈ decodeAscii line, isBlank c = false := by
  simp only [FramedBody.headers, List.forall_mem_append, List.forall_mem_cons]
  refine ⟨fun l hl => ?_, ?_, fun l hl => ?_⟩
  · exact ⟨(f.isOtherLine_of_mem_before l hl).1, (f.isOtherLine_of_mem_before l hl).2.1⟩
  · obtain ⟨hline, name, before, behind, inner, outer, hdecode, -⟩ := f.announces
    exact ⟨hline, ':', by simp [hdecode], by decide⟩
  · exact ⟨(f.isOtherLine_of_mem_behind l hl).1, (f.isOtherLine_of_mem_behind l hl).2.1⟩

namespace ByteStream

variable {s : ByteStream} {rest : List UInt8}

/-- The headers of a frame are read up to its body. -/
theorem readHeaders_framed (hbreak : s.breakAfter = none) {f : FramedBody}
    (h : s.rest = f.bytes ++ rest) :
    ∃ n, s.readHeaders .empty = (.block (Headers.addLines .empty f.headers), s.skip n) ∧
      n + f.body.length = f.bytes.length ∧ (s.skip n).rest = f.body ++ rest := by
  have hbytes : s.rest = unlines f.blanks ++
      (unlines f.headers ++ (f.closing ++ 10 :: (f.body ++ rest))) := by
    simp [h, FramedBody.bytes]
  have hrest := rest_skip hbytes
  have hrest' := rest_skip hrest
  have hentries : (Headers.addLines .empty f.headers).entries ≠ [] := fun heq => by
    have hlength := Headers.contentLength?_addLines_headers f .empty
    simp [Headers.contentLength?, Table.find?, heq, Table.findIn] at hlength
  have hclosing : ¬ trim (decodeAscii f.closing) ≠ [] :=
    not_not_intro (trimWhile_eq_nil_iff.2 f.isBlankLine_closing.2)
  refine ⟨(unlines f.blanks).length + (unlines f.headers).length + (f.closing.length + 1),
    ?_, ?_, ?_⟩
  · rw [readHeaders_blanks hbreak f.isBlankLine_of_mem_blanks hbytes,
      readHeaders_lines (s := s.skip _) hbreak f.exists_of_mem_headers hrest,
      readHeaders_line (s := (s.skip _).skip _) hbreak f.isBlankLine_closing.1 hrest',
      if_neg hclosing, if_pos hentries, skip_skip, skip_skip, Nat.add_assoc]
  · simp only [FramedBody.bytes, List.length_append, length_unlines_cons, unlines_nil,
      List.length_nil]
  · rw [← skip_skip s, ← skip_skip s]
    exact rest_skip_line hrest'

/-- A frame is read to its end, and its body decoded. -/
theorem receive_framed (hbreak : s.breakAfter = none) {f : FramedBody}
    (hlongest : ∀ n ∈ s.longest, f.body.length ≤ n) (h : s.rest = f.bytes ++ rest) :
    s.receive = (decodeBody f.body, s.skip f.bytes.length) := by
  obtain ⟨n, hread, hn, hrest⟩ := readHeaders_framed hbreak h
  have hbroken : (s.skip n).isBroken = false := by simp [isBroken, skip, hbreak]
  have hexceeds : (s.skip n).exceeds f.body.length = false := by
    unfold exceeds
    rw [show (s.skip n).longest = s.longest from rfl]
    cases hl : s.longest with
    | none => rfl
    | some longest =>
      have := hlongest longest hl
      simp
      omega
  unfold receive
  simp only [hread, Headers.contentLength?_addLines_headers, readBody, hbroken, hexceeds,
    Bool.false_eq_true, if_false]
  rw [if_neg (by omega)]
  simp [hrest, skip_skip, hn]

theorem continues_decodeBody (body : List UInt8) : (decodeBody body).continues = true := by
  unfold decodeBody
  split <;> rfl

/-- The frames of a stream are read one by one, until the stream ends. -/
theorem receiveAll_frames (hbreak : s.breakAfter = none) {frames : List FramedBody}
    (hlongest : ∀ n ∈ s.longest, ∀ f ∈ frames, f.body.length ≤ n)
    (h : s.rest = frames.flatMap (·.bytes)) :
    s.receiveAll = (frames.map (decodeBody ·.body) ++ [.closed], s.skip s.rest.length) := by
  induction frames generalizing s with
  | nil =>
    have hrest : s.rest = [] := h
    have hreceive : s.receive = (.closed, s) := by
      unfold receive
      rw [readHeaders, if_neg (by simp [isBroken, hbreak]), dif_pos hrest]
    rw [receiveAll, dif_neg (by simp [hreceive, Received.continues]), hreceive]
    simp [hrest, skip_zero]
  | cons f frames ih =>
    have hreceive : s.receive = (decodeBody f.body, s.skip f.bytes.length) :=
      receive_framed hbreak (fun n hn => hlongest n hn f List.mem_cons_self) h
    have hrest : (s.skip f.bytes.length).rest = frames.flatMap (·.bytes) := rest_skip h
    rw [receiveAll, dif_pos (by rw [hreceive]; exact continues_decodeBody _), hreceive]
    simp only
    rw [ih (s := s.skip _) hbreak
      (fun n hn g hg => hlongest n hn g (List.mem_cons_of_mem _ hg)) hrest, skip_skip]
    simp [skip, h]

/-- What a body may yield: the object that its text denotes, or else a malformed message. -/
def Decodes (body : List UInt8) (r : Received) : Prop :=
  (∃ members, Json.parseBytes? body = some (.obj members) ∧ r = .message (.obj members)) ∨
    (∀ members, Json.parseBytes? body ≠ some (.obj members)) ∧ ∃ reason, r = .malformed reason

theorem decodes_decodeBody (body : List UInt8) : Decodes body (decodeBody body) := by
  unfold decodeBody
  split
  · next h => exact .inr ⟨by simp [h], _, rfl⟩
  · next members h => exact .inl ⟨members, h, rfl⟩
  · next v hobj h =>
    exact .inr ⟨fun members hv => hobj members (Option.some.inj (h.symm.trans hv)), _, rfl⟩

end ByteStream

/-! ## Sending -/

/-- The bytes of messages that are sent. -/
def sentBytes (messages : List Json) : List UInt8 := messages.flatMap fun m => encodeUtf8 (frame m)

/-- The header of a body of `n` bytes. -/
def lengthLine (n : Nat) : List Char := "Content-Length: ".toList ++ decimalDigits n ++ ['\r']

theorem isAscii_lengthLine (n : Nat) : IsAscii (lengthLine n) := by
  unfold lengthLine
  simp [isAscii_decimalDigits]

theorem announces_lengthLine (n : Nat) : Announces n (encodeUtf8 (lengthLine n)) := by
  have hfeed : '\n' ∉ lengthLine n := by
    have hdigits : '\n' ∉ decimalDigits n :=
      fun h => absurd (isDigit_of_mem_decimalDigits h) (by decide)
    unfold lengthLine
    simp [hdigits]
  refine ⟨fun h => hfeed (lineFeed_mem_of_mem_encodeUtf8 (isAscii_lengthLine n) h),
    "Content-Length".toList, [], [], [' '], ['\r'], ?_, by decide,
    List.all_eq_true.1 (by decide)⟩
  rw [decodeAscii_encodeUtf8 (isAscii_lengthLine n)]
  unfold lengthLine
  simp

/-- The frame in which a message is sent. -/
def FramedBody.ofMessage (m : Json) : FramedBody where
  blanks := []
  before := []
  length := encodeUtf8 (lengthLine (m.print .compact).length)
  behind := []
  closing := [13]
  body := encodeUtf8 (m.print .compact)
  isBlankLine_of_mem_blanks := nofun
  isOtherLine_of_mem_before := nofun
  announces := by
    rw [length_encodeUtf8 m.isAscii_print]
    exact announces_lengthLine _
  isOtherLine_of_mem_behind := nofun
  isBlankLine_closing := by decide

/-- Messages are sent in well-formed frames. -/
theorem FramedBody.bytes_ofMessage (m : Json) : (ofMessage m).bytes = encodeUtf8 (frame m) := by
  have hcrlf : encodeUtf8 ['\n', '\r', '\n'] = [10, 13, 10] := by decide
  have hframe : frame m =
      lengthLine (m.print .compact).length ++ ['\n', '\r', '\n'] ++ m.print .compact := by
    unfold frame lengthLine
    simp
  rw [hframe, encodeUtf8_append, encodeUtf8_append, hcrlf]
  simp [FramedBody.bytes, FramedBody.headers, ofMessage]

/-- A message that was sent is decoded, if its text denotes it. -/
theorem decodeBody_ofMessage {m : Json} {members : List (String × Json)} (hm : m = .obj members)
    (hinverse : Json.parse? (m.print .compact) = some m) :
    ByteStream.decodeBody (FramedBody.ofMessage m).body = .message m := by
  have hparse : Json.parseBytes? (FramedBody.ofMessage m).body = some m := by
    show (decodeUtf8? (encodeUtf8 (m.print .compact))).bind Json.parse? = some m
    rw [decodeUtf8?_encodeUtf8]
    exact hinverse
  subst hm
  unfold ByteStream.decodeBody
  rw [hparse]

/-- The messages that were sent are the ones received. -/
theorem ByteStream.receiveAll_sent {s : ByteStream} (hbreak : s.breakAfter = none)
    {messages : List Json}
    (hlongest : ∀ n ∈ s.longest, ∀ m ∈ messages, (m.print .compact).length ≤ n)
    (hinverse : ∀ m ∈ messages, (∃ members, m = .obj members) ∧
      Json.parse? (m.print .compact) = some m)
    (h : s.rest = sentBytes messages) :
    s.receiveAll = (messages.map .message ++ [.closed], s.skip s.rest.length) := by
  have hbytes : s.rest = (messages.map FramedBody.ofMessage).flatMap (·.bytes) := by
    simp [h, sentBytes, List.flatMap_map, FramedBody.bytes_ofMessage]
  rw [receiveAll_frames hbreak ?_ hbytes, List.map_map]
  · congr 2
    refine List.map_congr_left fun m hm => ?_
    obtain ⟨⟨members, hobj⟩, hparse⟩ := hinverse m hm
    exact decodeBody_ofMessage hobj hparse
  · intro n hn f hf
    obtain ⟨m, hm, rfl⟩ := List.mem_map.1 hf
    exact (length_encodeUtf8 m.isAscii_print).trans_le (hlongest n hn m hm)

/-! ## Exchange -/

/-- Reading a stream of frames yields one outcome for each, in their order, and then that the stream
is closed; and if messages that are objects are what their texts denote, then reading what was sent
yields the messages. -/
theorem ByteStream.receiveAll_exchange {s t : ByteStream} (hs : s.breakAfter = none)
    (ht : t.breakAfter = none) {frames : List FramedBody} {messages : List Json}
    (hframes : ∀ n ∈ s.longest, ∀ f ∈ frames, f.body.length ≤ n)
    (hmessages : ∀ n ∈ t.longest, ∀ m ∈ messages, (m.print .compact).length ≤ n)
    (hinverse : ∀ m ∈ messages, (∃ members, m = .obj members) ∧
      Json.parse? (m.print .compact) = some m)
    (hrest : s.rest = frames.flatMap (·.bytes)) (hsent : t.rest = sentBytes messages) :
    (∃ outcomes, s.receiveAll.1 = outcomes ++ [.closed] ∧ s.receiveAll.2.rest = [] ∧
        List.Forall₂ (fun f r => Decodes f.body r) frames outcomes) ∧
      t.receiveAll.1 = messages.map .message ++ [.closed] := by
  refine ⟨⟨frames.map (decodeBody ·.body), ?_, ?_, ?_⟩, ?_⟩
  · rw [receiveAll_frames hs hframes hrest]
  · rw [receiveAll_frames hs hframes hrest]
    simp [skip]
  · rw [List.forall₂_map_right_iff]
    exact List.forall₂_same.2 fun f _ => decodes_decodeBody f.body
  · rw [receiveAll_sent ht hmessages hinverse hsent]

/-- Blank lines, a line without a colon and a header of another name around the length, which is
written in its own way, before a body of two bytes that are no text. -/
def FramedBody.untidy : FramedBody where
  blanks := [[], encodeUtf8 "\t \r".toList]
  before := [encodeUtf8 "Content-Type: text\r".toList, encodeUtf8 "content-length".toList]
  length := encodeUtf8 " CONTENT-length\t:  2\r".toList
  behind := [encodeUtf8 "X-Length: 7".toList]
  closing := [13]
  body := [0xff, 10]
  isBlankLine_of_mem_blanks := by decide
  isOtherLine_of_mem_before := by decide
  announces := ⟨by decide, "CONTENT-length".toList, [' '], ['\t'], [' ', ' '], ['\r'],
    by decide, by decide, List.all_eq_true.1 (by decide)⟩
  isOtherLine_of_mem_behind := by decide
  isBlankLine_closing := by decide

/-- Two such frames, and one message that is sent. -/
theorem ByteStream.receiveAll_untidy :
    (∃ outcomes,
        ({ rest := [FramedBody.untidy, .untidy].flatMap (·.bytes) } : ByteStream).receiveAll.1 =
          outcomes ++ [.closed] ∧
        List.Forall₂ (fun f r => Decodes (FramedBody.body f) r) [.untidy, .untidy] outcomes) ∧
      ({ rest := sentBytes [.obj [("a", .null)]] } : ByteStream).receiveAll.1 =
        [.message (.obj [("a", .null)]), .closed] := by
  have hinverse : ∀ m ∈ [Json.obj [("a", .null)]],
      (∃ members, m = .obj members) ∧ Json.parse? (m.print .compact) = some m := by
    simp only [List.forall_mem_singleton]
    exact ⟨⟨_, rfl⟩, rfl⟩
  obtain ⟨⟨outcomes, hall, -, hdecodes⟩, hsent⟩ := receiveAll_exchange
    (s := { rest := [FramedBody.untidy, .untidy].flatMap (·.bytes) })
    (t := { rest := sentBytes [.obj [("a", .null)]] }) rfl rfl nofun nofun hinverse rfl rfl
  exact ⟨⟨outcomes, hall, hdecodes⟩, hsent⟩

end LanguageServer
