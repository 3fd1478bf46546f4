import LanguageServer.Text.Utf8
import LanguageServer.Json.Parser

/-!
# YAML tokens

Indentation and the places where a key may stand decide how a text is cut, so the
scanner keeps a stack of indentations and, for every depth of brackets, the one place
where a key may have begun.  When a colon shows that a key did begin there, the tokens
that open the mapping and mark the key are put in front of it afterwards.

Every step takes at least one character, so the length of the text bounds the steps.

## Main definitions

* `Yaml.Token` — the tokens.
* `Yaml.tokens?` — the tokens of a whole text.
-/

namespace LanguageServer.Yaml

/-- The tokens of a document. -/
inductive Token where
  | streamEnd
  | documentStart
  | documentEnd
  | blockSequenceStart
  | blockMappingStart
  | blockEnd
  | flowSequenceStart
  | flowSequenceEnd
  | flowMappingStart
  | flowMappingEnd
  | blockEntry
  | flowEntry
  | key
  | value
  | scalar (plain : Bool) (text : List Char)
  deriving DecidableEq, Repr

/-- A place where a key may have begun. -/
structure KeyPlace where
  required : Bool
  tokenNumber : Nat
  index : Nat
  line : Nat
  column : Int

/-- The state of the scanner. -/
structure Scanner where
  rest : List Char
  index : Nat := 0
  line : Nat := 0
  column : Nat := 0
  flowLevel : Nat := 0
  indent : Int := -1
  indents : List Int := []
  tokens : List Token := []
  keyAllowed : Bool := true
  keyPlaces : List (Nat × KeyPlace) := []

/-! ## Characters -/

/-- Line breaks. -/
def isBreak (c : Char) : Bool :=
  c == '\n' || c == '\r' || c == '\x85' || c == '\u2028' || c == '\u2029'

/-- Blanks, line breaks and the end of the text, which reads as NUL. -/
def isGap (c : Char) : Bool := c == '\x00' || c == ' ' || c == '\t' || isBreak c

/-- The characters that a document may hold. -/
def isAllowed (c : Char) : Bool :=
  c == '\t' || c == '\n' || c == '\r' || (0x20 ≤ c.toNat && c.toNat ≤ 0x7e) || c == '\x85'
    || (0xa0 ≤ c.toNat && c.toNat ≤ 0xfffd) || 0x10000 ≤ c.toNat

/-- What a line break contributes to a text. -/
def breakText (c : Char) : Char := if c == '\u2028' || c == '\u2029' then c else '\n'

namespace Scanner

/-- The character `n` places ahead, NUL behind the end. -/
def peek (s : Scanner) (n : Nat) : Char := s.rest.getD n '\x00'

/-- Moves over one character. -/
def step (s : Scanner) : Scanner :=
  match s.rest with
  | [] => s
  | c :: cs =>
    let s' := { s with rest := cs, index := s.index + 1 }
    if isBreak c && !(c == '\r' && cs.head? == some '\n') then
      { s' with line := s.line + 1, column := 0 }
    else if c == '\uFEFF' then s'
    else { s' with column := s.column + 1 }

/-- Moves over `n` characters. -/
def forward (s : Scanner) : Nat → Scanner
  | 0 => s
  | n + 1 => s.step.forward n

/-- Moves over a line break, if there is one. -/
def lineBreak (s : Scanner) : List Char × Scanner :=
  if s.peek 0 == '\r' && s.peek 1 == '\n' then (['\n'], s.forward 2)
  else if isBreak (s.peek 0) then ([breakText (s.peek 0)], s.step)
  else ([], s)

/-- Moves over characters that satisfy `p`. -/
def skipWhile (p : Char → Bool) (s : Scanner) : Scanner := s.forward (s.rest.takeWhile p).length

/-- Adds a token. -/
def emit (s : Scanner) (t : Token) : Scanner := { s with tokens := s.tokens ++ [t] }

/-- Three characters that mark the start or the end of a document, followed by a gap. -/
def atMark (s : Scanner) (c : Char) : Bool :=
  s.peek 0 == c && s.peek 1 == c && s.peek 2 == c && isGap (s.peek 3)

/-- Whether a document mark stands here. -/
def atDocumentMark (s : Scanner) : Bool := s.atMark '-' || s.atMark '.'

/-! ## Indentation and places of keys -/

/-- Closes the blocks that are indented more than `column`. -/
def unwind (column : Int) (s : Scanner) : List Int → Scanner
  | [] => { s with indents := [] }
  | outer :: rest =>
    if s.flowLevel = 0 ∧ column < s.indent then
      unwind column ({ s with indent := outer, indents := rest }.emit .blockEnd) rest
    else s

/-- Opens a block at `column` if it is indented more than the one around it. -/
def openBlock (s : Scanner) (column : Int) : Option Scanner :=
  if s.indent < column then some { s with indents := s.indent :: s.indents, indent := column }
  else none

/-- Forgets places of keys that lie on an earlier line or too far back; a required key that was not
completed is an error. -/
def dropStale (s : Scanner) : Option Scanner :=
  let stale (p : KeyPlace) : Bool := p.line != s.line || 1024 < s.index - p.index
  if s.keyPlaces.any fun e => stale e.2 && e.2.required then none
  else some { s with keyPlaces := s.keyPlaces.filter fun e => !stale e.2 }

/-- Forgets the place of a key at this depth of brackets. -/
def dropKeyPlace (s : Scanner) : Option Scanner :=
  if s.keyPlaces.any fun e => e.1 == s.flowLevel && e.2.required then none
  else some { s with keyPlaces := s.keyPlaces.filter fun e => e.1 != s.flowLevel }

/-- Notes that a key may begin here. -/
def noteKeyPlace (s : Scanner) : Option Scanner :=
  if !s.keyAllowed then some s
  else do
    let required := s.flowLevel == 0 && s.indent == (s.column : Int)
    let s ← s.dropKeyPlace
    let place : KeyPlace := ⟨required, s.tokens.length, s.index, s.line, s.column⟩
    return { s with keyPlaces := (s.flowLevel, place) :: s.keyPlaces }

/-- Moves to the next token: over spaces, comments and line breaks.  Outside brackets a key may
begin on a new line. -/
def toNextToken : Nat → Scanner → Scanner
  | 0, s => s
  | n + 1, s =>
    let s := s.skipWhile (· == ' ')
    let s := if s.peek 0 == '#' then s.skipWhile (!isBreak ·) else s
    match s.lineBreak with
    | ([], s) => s
    | (_, s) => toNextToken n (if s.flowLevel == 0 then { s with keyAllowed := true } else s)

/-! ## Scalars -/

/-- How many characters of a plain scalar stand here without a gap. -/
def plainLength (inFlow : Bool) : List Char → Nat
  | [] => 0
  | c :: cs =>
    let next := cs.headD '\x00'
    let flowMark (x : Char) : Bool := x == ',' || x == '[' || x == ']' || x == '{' || x == '}'
    if isGap c || (c == ':' && (isGap next || (inFlow && flowMark next)))
        || (inFlow && (flowMark c || c == '?')) then 0
    else plainLength inFlow cs + 1

/-- The empty lines here, as they count in a folded text, and whether a document mark follows. -/
def emptyLines : Nat → List Char → Scanner → List Char × Bool × Scanner
  | 0, acc, s => (acc, false, s)
  | n + 1, acc, s =>
    let s := s.skipWhile (· == ' ')
    match s.lineBreak with
    | ([], s) => (acc, false, s)
    | (text, s) => if s.atDocumentMark then (acc ++ text, true, s) else emptyLines n (acc ++ text) s

/-- What a line break and the empty lines behind it contribute to a folded text. -/
def folded (first : List Char) (empties : List Char) : List Char :=
  (if first != ['\n'] then first else if empties.isEmpty then [' '] else []) ++ empties

/-- The gap inside a plain scalar: what it contributes, or nothing if the scalar ends here. -/
def plainGap (s : Scanner) : Option (List Char) × Scanner :=
  let blanks := s.rest.takeWhile (· == ' ')
  let s := s.forward blanks.length
  match s.lineBreak with
  | ([], s) => (if blanks.isEmpty then none else some blanks, s)
  | (first, s) =>
    let s := { s with keyAllowed := true }
    if s.atDocumentMark then (none, s)
    else
      let (empties, marked, s) := emptyLines (s.rest.length + 1) [] s
      (if marked then none else some (folded first empties), s)

/-- Scans a plain scalar, given its text so far and the gap before what follows. -/
def plain (indent : Int) : Nat → List Char → List Char → Scanner → List Char × Scanner
  | 0, text, _, s => (text, s)
  | n + 1, text, gap, s =>
    let length := plainLength (s.flowLevel != 0) s.rest
    if s.peek 0 == '#' || length == 0 then (text, s)
    else
      let text := text ++ gap ++ s.rest.take length
      match ({ s with keyAllowed := false }.forward length).plainGap with
      | (none, s) => (text, s)
      | (some gap, s) =>
        if s.peek 0 == '#' || (s.flowLevel == 0 && (s.column : Int) < indent) then (text, s)
        else plain indent n text gap s

/-- The character of a one-letter escape between double quotes. -/
def escape? (c : Char) : Option Char :=
  match c with
  | '0' => some '\x00'
  | 'a' => some '\x07'
  | 'b' => some '\x08'
  | 't' => some '\t'
  | '\t' => some '\t'
  | 'n' => some '\n'
  | 'v' => some '\x0b'
  | 'f' => some '\x0c'
  | 'r' => some '\r'
  | 'e' => some '\x1b'
  | ' ' => some ' '
  | '"' => some '"'
  | '\\' => some '\\'
  | '/' => some '/'
  | 'N' => some '\x85'
  | '_' => some '\xa0'
  | 'L' => some '\u2028'
  | 'P' => some '\u2029'
  | _ => none

/-- The number of hexadecimal digits behind the letter of an escape. -/
def escapeWidth? (c : Char) : Option Nat :=
  match c with
  | 'x' => some 2
  | 'u' => some 4
  | 'U' => some 8
  | _ => none

/-- The character whose code the next `width` hexadecimal digits give. -/
def coded? (s : Scanner) (width : Nat) : Option (Char × Scanner) := do
  let digits ← (s.rest.take width).mapM Json.hexValue?
  if digits.length ≠ width then none
  else
    let code := digits.foldl (fun n d => n * 16 + d) 0
    if 0x110000 ≤ code then none
    else if 0xD800 ≤ code ∧ code < 0xE000 then some (Text.replacement, s.forward width)
    else some (Char.ofNat code, s.forward width)

/-- The empty lines inside a quoted scalar; a document mark there is an error. -/
def quotedBreaks : Nat → List Char → Scanner → Option (List Char × Scanner)
  | 0, _, _ => none
  | n + 1, acc, s =>
    if s.atDocumentMark then none
    else
      let s := s.skipWhile fun c => c == ' ' || c == '\t'
      match s.lineBreak with
      | ([], s) => some (acc, s)
      | (text, s) => quotedBreaks n (acc ++ text) s

/-- Scans the rest of a quoted scalar. -/
def quoted (double : Bool) : Nat → List Char → Scanner → Option (List Char × Scanner)
  | 0, _, _ => none
  | n + 1, acc, s =>
    match s.rest with
    | [] => none
    | c :: cs =>
      if c == '\'' && !double then
        if cs.head? == some '\'' then quoted double n (acc ++ ['\'']) (s.forward 2)
        else some (acc, s.step)
      else if c == '"' && double then some (acc, s.step)
      else if c == '\\' && double then
        match cs with
        | [] => none
        | e :: _ =>
          match escape? e, escapeWidth? e with
          | some c', _ => quoted double n (acc ++ [c']) (s.forward 2)
          | none, some width => do
            let (c', s) ← (s.forward 2).coded? width
            quoted double n (acc ++ [c']) s
          | none, none =>
            if isBreak e then do
              let (_, s) := s.step.lineBreak
              let (breaks, s) ← quotedBreaks (s.rest.length + 1) [] s
              quoted double n (acc ++ breaks) s
            else none
      else if c == ' ' || c == '\t' || isBreak c then
        let blanks := s.rest.takeWhile fun c => c == ' ' || c == '\t'
        let s := s.forward blanks.length
        match s.lineBreak with
        | ([], s) => if s.rest.isEmpty then none else quoted double n (acc ++ blanks) s
        | (first, s) => do
          let (breaks, s) ← quotedBreaks (s.rest.length + 1) [] s
          quoted double n (acc ++ folded first breaks) s
      else quoted double n (acc ++ [c]) s.step

/-! ## One token -/

/-- Puts tokens in front of the token with the given number. -/
def insertTokens (s : Scanner) (number : Nat) (ts : List Token) : Scanner :=
  { s with tokens := s.tokens.take number ++ ts ++ s.tokens.drop number }

/-- A bracket that opens. -/
def openBracket (s : Scanner) (t : Token) : Option Scanner := do
  let s ← s.noteKeyPlace
  return ({ s with flowLevel := s.flowLevel + 1, keyAllowed := true }.emit t).step

/-- A bracket that closes. -/
def closeBracket (s : Scanner) (t : Token) : Option Scanner := do
  let s ← s.dropKeyPlace
  if s.flowLevel = 0 then none
  else return ({ s with flowLevel := s.flowLevel - 1, keyAllowed := false }.emit t).step

/-- A comma between brackets. -/
def flowEntry (s : Scanner) : Option Scanner := do
  let s ← { s with keyAllowed := true }.dropKeyPlace
  return (s.emit .flowEntry).step

/-- A dash or a question mark outside brackets opens a block where a key may begin. -/
def blockMark (s : Scanner) (opening : Token) : Option Scanner :=
  if s.flowLevel != 0 then some s
  else if !s.keyAllowed then none
  else some (match s.openBlock s.column with
    | some s => s.emit opening
    | none => s)

/-- A dash in front of an item. -/
def blockEntry (s : Scanner) : Option Scanner := do
  let s ← s.blockMark .blockSequenceStart
  let s ← { s with keyAllowed := true }.dropKeyPlace
  return (s.emit .blockEntry).step

/-- A question mark in front of a key. -/
def explicitKey (s : Scanner) : Option Scanner := do
  let s ← s.blockMark .blockMappingStart
  let s ← { s with keyAllowed := s.flowLevel == 0 }.dropKeyPlace
  return (s.emit .key).step

/-- A colon in front of a value.  If a key may have begun at this depth, it did. -/
def mappingValue (s : Scanner) : Option Scanner :=
  match s.keyPlaces.find? fun e => e.1 == s.flowLevel with
  | some (_, place) =>
    let s := { s with
      keyPlaces := s.keyPlaces.filter fun e => e.1 != s.flowLevel
      keyAllowed := false }
    let s :=
      if s.flowLevel != 0 then s.insertTokens place.tokenNumber [.key]
      else
        match s.openBlock place.column with
        | some s => s.insertTokens place.tokenNumber [.blockMappingStart, .key]
        | none => s.insertTokens place.tokenNumber [.key]
    some (s.emit .value).step
  | none => do
    let s ← s.blockMark .blockMappingStart
    let s ← { s with keyAllowed := s.flowLevel == 0 }.dropKeyPlace
    return (s.emit .value).step

/-- A mark between documents. -/
def documentMark (s : Scanner) (t : Token) : Option Scanner := do
  let s := s.unwind (-1) s.indents
  let s ← s.dropKeyPlace
  return ({ s with keyAllowed := false }.emit t).forward 3

/-- A scalar between quotes. -/
def quotedScalar (s : Scanner) (double : Bool) : Option Scanner := do
  let s ← s.noteKeyPlace
  let (text, s) ← quoted double (s.rest.length + 1) [] { s with keyAllowed := false }.step
  return s.emit (.scalar false text)

/-- A scalar without quotes. -/
def plainScalar (s : Scanner) : Option Scanner := do
  let s ← s.noteKeyPlace
  let (text, s) := plain (s.indent + 1) (s.rest.length + 1) [] [] { s with keyAllowed := false }
  return s.emit (.scalar true text)

/-- Whether a plain scalar may begin with `c`, followed by `next`. -/
def beginsPlain (inFlow : Bool) (c next : Char) : Bool :=
  let marks : List Char :=
    ['-', '?', ':', ',', '[', ']', '{', '}', '#', '&', '*', '!', '|', '>', '\'', '"', '%', '@',
     Char.ofNat 0x60]
  !(isGap c || marks.contains c)
    || (!isGap next && (c == '-' || (!inFlow && (c == '?' || c == ':'))))

/-- Scans one token; the flag says that it was the last.  Anchors, aliases, tags, directives and
block scalars are not read. -/
def token? (s : Scanner) : Option (Scanner × Bool) := do
  let s := s.toNextToken (s.rest.length + 1)
  let s ← s.dropStale
  let s := s.unwind s.column s.indents
  let c := s.peek 0
  let next := s.peek 1
  let inFlow := s.flowLevel != 0
  let going (r : Option Scanner) : Option (Scanner × Bool) := r.map (·, false)
  if s.rest.isEmpty then
    let s := s.unwind (-1) s.indents
    let s ← s.dropKeyPlace
    return (s.emit .streamEnd, true)
  else if s.column == 0 && s.atMark '-' then going (s.documentMark .documentStart)
  else if s.column == 0 && s.atMark '.' then going (s.documentMark .documentEnd)
  else if c == '[' then going (s.openBracket .flowSequenceStart)
  else if c == '{' then going (s.openBracket .flowMappingStart)
  else if c == ']' then going (s.closeBracket .flowSequenceEnd)
  else if c == '}' then going (s.closeBracket .flowMappingEnd)
  else if c == ',' then going s.flowEntry
  else if c == '-' && isGap next then going s.blockEntry
  else if c == '?' && (inFlow || isGap next) then going s.explicitKey
  else if c == ':' && (inFlow || isGap next) then going s.mappingValue
  else if c == '\'' then going (s.quotedScalar false)
  else if c == '"' then going (s.quotedScalar true)
  else if beginsPlain inFlow c next then going s.plainScalar
  else none

/-- Scans to the end. -/
def run : Nat → Scanner → Option (List Token)
  | 0, _ => none
  | n + 1, s =>
    match s.token? with
    | none => none
    | some (s, true) => some s.tokens
    | some (s, false) => run n s

end Scanner

/-- The tokens of a whole text; a byte order mark in front says nothing. -/
def tokens? (text : List Char) : Option (List Token) :=
  if !text.all isAllowed then none
  else
    let start : Scanner := { rest := text }
    let start := if text.head? == some '\uFEFF' then start.step else start
    start.run (text.length + 1)

end LanguageServer.Yaml
