import LanguageServer.Json.Parser
import LanguageServer.Text.Cut
import LanguageServer.Text.Quoted
import LanguageServer.Text.Utf8

/-!
# File URIs

A file URI names a path in percent coding.  The path of a URI with a host begins with
two slashes and the host.  A path that begins with a drive letter is written without
its slash, the letter in lower case.

## Main definitions

* `Uri.toPath?` — the path that a URI names.
* `Uri.ofPath` — the URI of a path.
* `Uri.decodePercent`, `Uri.encodePercent` — percent coding.
-/

namespace LanguageServer.Uri

open LanguageServer.Text

/-- Why a URI or a path cannot be taken apart. -/
inductive UriError where
  /-- A bracket in the host has no partner. -/
  | unbalancedBracket
  /-- A path begins with a host that no slash ends. -/
  | endlessHost
  deriving DecidableEq, Repr

/-! ## Percent coding -/

/-- The bytes of a text of ASCII characters in which each `%XX` is one byte; a percent sign without
two hexadecimal digits stands for itself. -/
def percentBytes : List Char → List UInt8
  | [] => []
  | '%' :: a :: b :: cs =>
    match Json.hexValue? a, Json.hexValue? b with
    | some x, some y => UInt8.ofNat (x * 16 + y) :: percentBytes cs
    | _, _ => 0x25 :: percentBytes (a :: b :: cs)
  | c :: cs => UInt8.ofNat c.toNat :: percentBytes cs

/-- Whether a character is in ASCII. -/
def isAscii (c : Char) : Bool := c.toNat < 0x80

/-- Decodes a text of ASCII characters. -/
def decodeRun (run : List Char) : List Char := decodeReplacing (percentBytes run)

/-- Decodes each longest run of ASCII characters, given the run that is under way, last first. -/
def decodePercentFrom (run : List Char) : List Char → List Char
  | [] => decodeRun run.reverse
  | c :: cs =>
    if isAscii c then decodePercentFrom (c :: run) cs
    else decodeRun run.reverse ++ c :: decodePercentFrom [] cs

/-- Undoes percent coding; ill-formed bytes are replaced. -/
def decodePercent (s : List Char) : List Char := decodePercentFrom [] s

/-- The characters that percent coding leaves alone. -/
def isPlain (c : Char) : Bool :=
  c.isAlphanum || c == '_' || c == '.' || c == '-' || c == '~' || c == '/'

/-- One upper-case hexadecimal digit. -/
def upperHexDigit (n : Nat) : Char := (hexDigit n).toUpper

/-- One byte in percent coding. -/
def encodeByte (b : UInt8) : List Char :=
  ['%', upperHexDigit (b.toNat / 16), upperHexDigit (b.toNat % 16)]

/-- Percent coding. -/
def encodePercent (s : List Char) : List Char :=
  s.flatMap fun c => if isPlain c then [c] else (encodeUtf8 [c]).flatMap encodeByte

/-! ## From a URI to a path -/

/-- Whether a path begins with a slash, a letter and a colon. -/
def beginsWithDrive : List Char → Bool
  | '/' :: letter :: ':' :: _ => letter.isAlpha
  | _ => false

/-- The characters of a scheme. -/
def isSchemeChar (c : Char) : Bool := c.isAlphanum || c == '+' || c == '-' || c == '.'

/-- The scheme in lower case and what follows its colon. -/
def cutScheme (s : List Char) : List Char × List Char :=
  match cutFirst? ':' s with
  | some (c :: scheme, rest) =>
    if c.isAlpha && scheme.all isSchemeChar then ((c :: scheme).map Char.toLower, rest) else ([], s)
  | _ => ([], s)

/-- The host and what follows it. -/
def cutHost : List Char → List Char × List Char
  | '/' :: '/' :: rest =>
    let ends (c : Char) : Bool := c == '/' || c == '?' || c == '#'
    (rest.takeWhile (!ends ·), rest.dropWhile (!ends ·))
  | rest => ([], rest)

/-- What stands before the first `x`. -/
def beforeFirst (x : Char) (s : List Char) : List Char := s.takeWhile (· != x)

/-- The path that a URI names, if it is a file URI. -/
def toPath? (uri : String) : Except UriError (Option String) :=
  let s := uri.toList.filter fun c => c != '\t' && c != '\r' && c != '\n'
  let (scheme, rest) := cutScheme s
  let (host, rest) := cutHost rest
  if host.contains '[' != host.contains ']' then .error .unbalancedBracket
  else if scheme != ['f', 'i', 'l', 'e'] then .ok none
  else
    let host := decodePercent host
    let path := decodePercent (beforeFirst '?' (beforeFirst '#' rest))
    let named :=
      if host != [] && path != [] then '/' :: '/' :: host ++ path
      else if beginsWithDrive path then
        match path with
        | _ :: letter :: rest => letter.toLower :: rest
        | rest => rest
      else path
    .ok (some (String.ofList named))

/-! ## From a path to a URI -/

/-- Whether a text holds a colon and two slashes, as URIs do and paths do not. -/
def hasAuthorityMark : List Char → Bool
  | ':' :: '/' :: '/' :: _ => true
  | _ :: cs => hasAuthorityMark cs
  | [] => false

/-- The host at the front of a path and the path behind it. -/
def cutHostPath (s : List Char) : Except UriError (List Char × List Char) :=
  match s with
  | '/' :: '/' :: rest =>
    match cutFirst? '/' rest with
    | some (host, path) => .ok (host, '/' :: path)
    | none => .error .endlessHost
  | _ => .ok ([], s)

/-- The URI of a path. -/
def ofPath (path : String) : Except UriError String := do
  let (host, path) ← cutHostPath path.toList
  let path := if path.head? = some '/' then path else '/' :: path
  let coded :=
    if beginsWithDrive path then
      match path with
      | slash :: letter :: colon :: rest =>
        slash :: letter.toLower :: colon :: encodePercent rest
      | rest => rest
    else encodePercent path
  return String.ofList ("file://".toList ++ encodePercent host ++ coded)

end LanguageServer.Uri
