import LanguageServer.Yaml.Scalar
import LanguageServer.Yaml.Token

/-!
# Reading a YAML document

A text holds one document at most.  Its tokens are read by recursive descent, and the
number of tokens bounds the depth.

## Main definitions

* `Yaml.read?` — the datum that a text denotes; a text without a document is null.
-/

namespace LanguageServer.Yaml

/-- Whether a datum may be the key of a mapping. -/
def isKey : Data → Bool
  | .list _ => false
  | .map _ => false
  | _ => true

/-- Whether two keys are the same.  Truth values count as zero and one. -/
def sameKey : Data → Data → Bool
  | .null, .null => true
  | .text a, .text b => a == b
  | .float a, .float b => a == b
  | a, b =>
    match number? a, number? b with
    | some x, some y => x == y
    | _, _ => false
where
  /-- The whole number that a key counts as. -/
  number? : Data → Option Int
    | .int i => some i
    | .bool b => some (if b then 1 else 0)
    | _ => none

/-- Puts an entry into a mapping: a repeated key keeps its place and takes the new value. -/
def putEntry (key value : Data) : List (Data × Data) → List (Data × Data)
  | [] => [(key, value)]
  | (k, v) :: rest =>
    if sameKey k key then (k, value) :: rest else (k, v) :: putEntry key value rest

/-- Puts an entry whose key is a scalar. -/
def addEntry (key value : Data) (entries : List (Data × Data)) : Option (List (Data × Data)) :=
  if isKey key then some (putEntry key value entries) else none

/-- A datum and the tokens behind it. -/
abbrev Reader (α : Type) := List Token → Option (α × List Token)

/-- Where a node stands: in a block, as the value of a block mapping, or between brackets. -/
inductive Place where
  | block
  | blockValue
  | flow
  deriving DecidableEq

/-- Tokens behind which an empty node stands in a block mapping. -/
def endsBlockValue : Token → Bool
  | .key => true
  | .value => true
  | .blockEnd => true
  | _ => false

/-- The next token, the end of the stream behind the last. -/
def next (ts : List Token) : Token := ts.headD .streamEnd

mutual

/-- Reads a node. -/
def node? : Nat → Place → Reader Data
  | 0, _, _ => none
  | n + 1, place, ts =>
    match ts with
    | .blockEntry :: _ => if place = .blockValue then items? n [] ts else none
    | .scalar true text :: rest => (scalarData? text).map (·, rest)
    | .scalar false text :: rest => some (.text (String.ofList text), rest)
    | .flowSequenceStart :: rest => flowItems? n true [] rest
    | .flowMappingStart :: rest => flowEntries? n true [] rest
    | .blockSequenceStart :: rest =>
      if place = .flow then none
      else
        match items? n [] rest with
        | some (v, .blockEnd :: rest) => some (v, rest)
        | _ => none
    | .blockMappingStart :: rest => if place = .flow then none else entries? n [] rest
    | _ => none

/-- Reads items behind dashes, after the ones in `acc`. -/
def items? : Nat → List Data → Reader Data
  | 0, _, _ => none
  | n + 1, acc, ts =>
    match ts with
    | .blockEntry :: rest =>
      if next rest = .blockEntry ∨ endsBlockValue (next rest) then items? n (acc ++ [.null]) rest
      else
        match node? n .block rest with
        | some (v, rest) => items? n (acc ++ [v]) rest
        | none => none
    | _ => some (.list acc, ts)

/-- Reads the entries of a block mapping up to its end. -/
def entries? : Nat → List (Data × Data) → Reader Data
  | 0, _, _ => none
  | n + 1, acc, ts =>
    match ts with
    | .blockEnd :: rest => some (.map acc, rest)
    | .key :: rest =>
      match valueOrNull? n .blockValue rest with
      | none => none
      | some (key, .value :: rest) =>
        match valueOrNull? n .blockValue rest with
        | none => none
        | some (v, rest) => (addEntry key v acc).bind fun acc => entries? n acc rest
      | some (key, rest) => (addEntry key .null acc).bind fun acc => entries? n acc rest
    | _ => none

/-- Reads a node of a block mapping, which may be empty. -/
def valueOrNull? : Nat → Place → Reader Data
  | 0, _, _ => none
  | n + 1, place, ts => if endsBlockValue (next ts) then some (.null, ts) else node? n place ts

/-- Reads a node between brackets, which may be empty in front of a token that satisfies `ends`. -/
def flowNode? : Nat → (Token → Bool) → Reader Data
  | 0, _, _ => none
  | n + 1, ends, ts => if ends (next ts) then some (.null, ts) else node? n .flow ts

/-- Reads the items between square brackets. -/
def flowItems? : Nat → Bool → List Data → Reader Data
  | 0, _, _, _ => none
  | n + 1, first, acc, ts =>
    match ts with
    | .flowSequenceEnd :: rest => some (.list acc, rest)
    | _ =>
      let behindComma := if first then some ts else match ts with
        | .flowEntry :: rest => some rest
        | _ => none
      match behindComma with
      | none => none
      | some (.flowSequenceEnd :: rest) => some (.list acc, rest)
      | some (.key :: rest) =>
        let ends (t : Token) : Bool := t == .value || t == .flowEntry || t == .flowSequenceEnd
        match flowNode? n ends rest with
        | none => none
        | some (key, .value :: rest) =>
          let ends (t : Token) : Bool := t == .flowEntry || t == .flowSequenceEnd
          match flowNode? n ends rest with
          | none => none
          | some (v, rest) =>
            (addEntry key v []).bind fun e => flowItems? n false (acc ++ [.map e]) rest
        | some (key, rest) =>
          (addEntry key .null []).bind fun e => flowItems? n false (acc ++ [.map e]) rest
      | some rest =>
        match node? n .flow rest with
        | none => none
        | some (v, rest) => flowItems? n false (acc ++ [v]) rest

/-- Reads the entries between braces. -/
def flowEntries? : Nat → Bool → List (Data × Data) → Reader Data
  | 0, _, _, _ => none
  | n + 1, first, acc, ts =>
    match ts with
    | .flowMappingEnd :: rest => some (.map acc, rest)
    | _ =>
      let behindComma := if first then some ts else match ts with
        | .flowEntry :: rest => some rest
        | _ => none
      match behindComma with
      | none => none
      | some (.flowMappingEnd :: rest) => some (.map acc, rest)
      | some (.key :: rest) =>
        let ends (t : Token) : Bool := t == .value || t == .flowEntry || t == .flowMappingEnd
        match flowNode? n ends rest with
        | none => none
        | some (key, .value :: rest) =>
          let ends (t : Token) : Bool := t == .flowEntry || t == .flowMappingEnd
          match flowNode? n ends rest with
          | none => none
          | some (v, rest) =>
            (addEntry key v acc).bind fun acc => flowEntries? n false acc rest
        | some (key, rest) =>
          (addEntry key .null acc).bind fun acc => flowEntries? n false acc rest
      | some rest =>
        match node? n .flow rest with
        | none => none
        | some (key, rest) => (addEntry key .null acc).bind fun acc => flowEntries? n false acc rest

end

/-- Drops the marks behind a document. -/
def dropDocumentEnds (ts : List Token) : List Token := ts.dropWhile (· == .documentEnd)

/-- Reads the tokens of a stream that holds one document at most. -/
def readTokens? (ts : List Token) : Option Data :=
  let fuel := 2 * ts.length + 2
  let readRoot (ts : List Token) : Option Data :=
    match next ts with
    | .streamEnd => some .null
    | .documentEnd => if next (dropDocumentEnds ts) = .streamEnd then some .null else none
    | _ =>
      match node? fuel .block ts with
      | some (v, rest) => if next (dropDocumentEnds rest) = .streamEnd then some v else none
      | none => none
  match next ts with
  | .streamEnd => some .null
  | .documentEnd =>
    match dropDocumentEnds ts with
    | .documentStart :: rest => readRoot rest
    | rest => if next rest = .streamEnd then some .null else none
  | .documentStart => readRoot (ts.drop 1)
  | _ => readRoot ts

/-- The datum that a text denotes. -/
def read? (text : String) : Option Data := (tokens? text.toList).bind readTokens?

end LanguageServer.Yaml
