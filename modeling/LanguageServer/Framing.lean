import LanguageServer.Json.Parser
import LanguageServer.Json.Printer
import LanguageServer.Text.Cut

/-!
# Framed messages over a byte stream

Each message is a block of header lines, of which `Content-Length` counts, an empty
line, and a body of that many bytes.  Blank lines before a header block are skipped.
A body that is no JSON object costs only its own message; a stream that ends early
ends the conversation, and a stream that breaks fails it.

A negative length takes all that is left.

## Main definitions

* `ByteStream` — the bytes still to be read, and where reading fails.
* `Received` — one outcome of reading a message.
* `ByteStream.receive` — reads one message.
* `ByteStream.receiveAll` — reads to the end.
* `frame` — the bytes of a message that is sent.
-/

namespace LanguageServer

open LanguageServer.Text

/-! ## The stream -/

/-- The bytes that are left of a stream. -/
structure ByteStream where
  rest : List UInt8
  /-- The number of bytes read so far. -/
  offset : Nat := 0
  /-- Reads that start at or behind this offset fail. -/
  breakAfter : Option Nat := none
  /-- The greatest length that can be asked for; the least one is one further below zero. -/
  longest : Option Nat := none

/-- What reading one message yields. -/
inductive Received where
  /-- A decoded message. -/
  | message (value : Json)
  /-- A message that could not be decoded; reading can go on. -/
  | malformed (reason : String)
  /-- The stream failed. -/
  | failed (reason : String)
  /-- The body is longer than the stream can ever hold. -/
  | oversized
  /-- The stream ended. -/
  | closed

/-- Why a header or a body is not usable, as the client is told. -/
inductive FrameError where
  | contentLength
  | notJson
  | notObject
  | brokenHeader
  | brokenBody
  deriving DecidableEq, Repr

/-- The wording of a frame error. -/
def FrameError.message : FrameError → String
  | .contentLength => "Missing or invalid Content-Length header"
  | .notJson => "Invalid JSON body"
  | .notObject => "Message body must be a JSON object"
  | .brokenHeader => "Failed to read message header: stream broken"
  | .brokenBody => "Failed to read message body: stream broken"

namespace ByteStream

/-- Whether the next read fails. -/
def isBroken (s : ByteStream) : Bool :=
  match s.breakAfter with
  | some n => n ≤ s.offset
  | none => false

/-- The bytes up to and with the first line feed, and the rest. -/
def cutLine : List UInt8 → List UInt8 × List UInt8
  | [] => ([], [])
  | b :: bs =>
    if b = 10 then ([b], bs)
    else
      let (line, rest) := cutLine bs
      (b :: line, rest)

/-- A line and what follows it are the whole. -/
theorem cutLine_append (bs : List UInt8) : (cutLine bs).1 ++ (cutLine bs).2 = bs := by
  induction bs with
  | nil => rfl
  | cons b bs ih =>
    by_cases h : b = 10
    · simp [cutLine, h]
    · simp [cutLine, h, ih]

/-- A line has at least one byte. -/
theorem length_cutLine_snd_lt (b : UInt8) (bs : List UInt8) :
    (cutLine (b :: bs)).2.length < (b :: bs).length := by
  have h := congrArg List.length (cutLine_append (b :: bs))
  have : 0 < (cutLine (b :: bs)).1.length := by
    by_cases h : b = 10 <;> simp [cutLine, h]
  simp only [List.length_append] at h
  omega

/-- The stream behind its first `n` bytes. -/
def skip (s : ByteStream) (n : Nat) : ByteStream :=
  { s with rest := s.rest.drop n, offset := s.offset + min n s.rest.length }

/-- The stream behind its first line. -/
def skipLine (s : ByteStream) : ByteStream :=
  { s with rest := (cutLine s.rest).2, offset := s.offset + (cutLine s.rest).1.length }

theorem length_skip_le (s : ByteStream) (n : Nat) : (s.skip n).rest.length ≤ s.rest.length := by
  simp [skip]

theorem length_skipLine_lt {s : ByteStream} (h : s.rest ≠ []) :
    s.skipLine.rest.length < s.rest.length := by
  unfold skipLine
  cases hs : s.rest with
  | nil => exact absurd hs h
  | cons b bs => exact length_cutLine_snd_lt b bs

end ByteStream

/-! ## Headers -/

/-- The fields of a header block: lower-case names without white space around them, the last value
of each. -/
abbrev Headers := Table String String

/-- Adds a header line; a line without a colon says nothing. -/
def Headers.addLine (h : Headers) (line : List Char) : Headers :=
  match cutFirst? ':' line with
  | none => h
  | some (name, value) =>
    h.insert (String.ofList ((trim name).map Char.toLower)) (String.ofList (trim value))

/-- The announced length of the body, if it is given as a numeral. -/
def Headers.contentLength? (h : Headers) : Option Int := do
  readInteger? (← h.find? "content-length").toList

/-- How reading a header block ends. -/
inductive HeaderOutcome where
  | block (headers : Headers)
  | closed
  | broken

namespace ByteStream

/-- Reads lines up to the empty line behind a header block, with the fields found so far. -/
def readHeaders (headers : Headers) (s : ByteStream) : HeaderOutcome × ByteStream :=
  if s.isBroken then (.broken, s)
  else if _h : s.rest = [] then (.closed, s)
  else
    let text := trim (decodeAscii (cutLine s.rest).1)
    if text ≠ [] then readHeaders (headers.addLine text) s.skipLine
    else if headers.entries ≠ [] then (.block headers, s.skipLine)
    else readHeaders headers s.skipLine
termination_by s.rest.length
decreasing_by all_goals exact length_skipLine_lt _h

/-- What a body of bytes yields. -/
def decodeBody (body : List UInt8) : Received :=
  match Json.parseBytes? body with
  | none => .malformed FrameError.notJson.message
  | some (.obj members) => .message (.obj members)
  | some _ => .malformed FrameError.notObject.message

/-- Whether a length cannot be asked for. -/
def exceeds (s : ByteStream) (length : Int) : Bool :=
  s.longest.any fun n => (n : Int) < length || length < -(n : Int) - 1

/-- Reads a body of the announced length. -/
def readBody (length : Int) (s : ByteStream) : Received × ByteStream :=
  if s.isBroken then (.failed FrameError.brokenBody.message, s)
  else if s.exceeds length then (.oversized, s)
  else if length < 0 then (decodeBody s.rest, s.skip s.rest.length)
  else
    let body := s.rest.take length.toNat
    let s' := s.skip length.toNat
    if body.length < length.toNat then (.closed, s') else (decodeBody body, s')

/-- Reads one message. -/
def receive (s : ByteStream) : Received × ByteStream :=
  match s.readHeaders .empty with
  | (.closed, s') => (.closed, s')
  | (.broken, s') => (.failed FrameError.brokenHeader.message, s')
  | (.block headers, s') =>
    match headers.contentLength? with
    | none => (.malformed FrameError.contentLength.message, s')
    | some length => s'.readBody length

/-- How many more bytes reading should wait for: none once there is a full message, the missing
part of a body, one byte of an unfinished header, and many where all that is left is taken. -/
def wanted (s : ByteStream) : Nat :=
  match s.readHeaders .empty with
  | (.closed, _) => 1
  | (.broken, _) => 0
  | (.block headers, s') =>
    match headers.contentLength? with
    | none => 0
    | some length => if length < 0 then 4096 else length.toNat - s'.rest.length

/-! ## Progress

Reading a message that is not the last outcome takes at least one byte, so a finite
stream holds finitely many. -/

theorem length_readHeaders_lt {headers headers' : Headers} {s s' : ByteStream}
    (h : s.readHeaders headers = (.block headers', s')) : s'.rest.length < s.rest.length := by
  fun_induction readHeaders headers s with
  | case1 => simp at h
  | case2 => simp at h
  | case3 headers s _ hr text _ ih => exact Nat.lt_trans (ih h) (length_skipLine_lt hr)
  | case4 headers s _ hr text _ _ =>
    simp only [Prod.mk.injEq] at h
    exact h.2 ▸ length_skipLine_lt hr
  | case5 headers s _ hr text _ _ ih => exact Nat.lt_trans (ih h) (length_skipLine_lt hr)

theorem length_readBody_le (length : Int) (s : ByteStream) :
    (s.readBody length).2.rest.length ≤ s.rest.length := by
  unfold readBody
  split
  · exact Nat.le_refl _
  · split
    · exact Nat.le_refl _
    · split
      · exact length_skip_le s _
      · dsimp only
        split <;> exact length_skip_le s _

end ByteStream

/-- Whether reading goes on after this outcome. -/
def Received.continues : Received → Bool
  | .message _ => true
  | .malformed _ => true
  | _ => false

namespace ByteStream

/-- A message or a malformed message uses up part of the stream. -/
theorem length_receive_lt {s : ByteStream} (h : s.receive.1.continues = true) :
    s.receive.2.rest.length < s.rest.length := by
  unfold receive at h ⊢
  split at h
  · simp [Received.continues] at h
  · simp [Received.continues] at h
  · rename_i headers s' hh
    have hlt := length_readHeaders_lt hh
    split
    · exact hlt
    · exact Nat.lt_of_le_of_lt (length_readBody_le _ _) hlt

/-- All outcomes up to the first that ends the conversation, with that one, and what is left. -/
def receiveAll (s : ByteStream) : List Received × ByteStream :=
  if _h : s.receive.1.continues = true then
    let (rs, last) := receiveAll s.receive.2
    (s.receive.1 :: rs, last)
  else ([s.receive.1], s.receive.2)
termination_by s.rest.length
decreasing_by exact length_receive_lt _h

end ByteStream

/-! ## Sending -/

/-- The frame of a message: its length in bytes, an empty line, and its compact text. -/
def frame (message : Json) : List Char :=
  let body := message.print .compact
  "Content-Length: ".toList ++ decimalDigits body.length ++ ['\r', '\n', '\r', '\n'] ++ body

end LanguageServer
