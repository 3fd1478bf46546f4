import LanguageServer.Data
import LanguageServer.Files.Path

/-!
# Import remappings

A remapping rewrites the front of an import path.  It is written
`context:lead=target`: it applies to paths that begin with the lead, in sources
whose name begins with the context.  Of several that apply the longest context wins,
then the longest lead, and of equals the last.

## Main definitions

* `Remapping` — context, lead and target.
* `Remapping.parse`, `Remapping.toString` — reading and writing.
* `remapPath` — an import path rewritten by the best rule.
* `ConfigurationError` — why a setting is refused.
-/

namespace LanguageServer

open LanguageServer.Text

/-- Why a setting is refused. -/
inductive ConfigurationError where
  | remappingNotText (value : Data)
  | remappingWithoutTarget (text : String)
  | remappingWithoutLead (text : String)
  | remappingsNotList
  | invalidTargetVersion (value : Data)
  | includePathsNotTexts
  | settingsNotMapping (value : Data)
  | unreadableFile (file : String)
  | fileNotMapping (file : String)
  | rejectedFile (file : String) (causes : List ConfigurationError)

/-- The wording of a refusal. -/
def ConfigurationError.message : ConfigurationError → String
  | .remappingNotText value => "Remapping must be a string, got " ++ value.literalString
  | .remappingWithoutTarget text =>
    "Invalid remapping " ++ quotedString text ++ ": expected prefix=target"
  | .remappingWithoutLead text => "Invalid remapping " ++ quotedString text ++ ": empty prefix"
  | .remappingsNotList => "remappings must be a list of strings"
  | .invalidTargetVersion value => "Invalid target version " ++ value.literalString
  | .includePathsNotTexts => "include paths must be a list of strings"
  | .settingsNotMapping value => "Settings must be an object, got " ++ value.typeName
  | .unreadableFile file => "Cannot read " ++ file
  | .fileNotMapping file => file ++ " must contain a mapping"
  | .rejectedFile file causes =>
    file ++ ": " ++ String.intercalate "; " (messages causes)
where
  /-- The wordings of several refusals. -/
  messages : List ConfigurationError → List String
    | [] => []
    | e :: rest => e.message :: messages rest

/-- A rule that rewrites the front of import paths. -/
structure Remapping where
  /-- What the name of the importing source must begin with. -/
  context : String
  /-- What the import path must begin with. -/
  lead : String
  /-- What the lead is replaced by. -/
  target : String
  deriving DecidableEq, Repr

namespace Remapping

/-- Reads the part before the equals sign: the lead behind the last colon, if there is one. -/
def splitHead (head : List Char) : List Char × List Char :=
  match cutLast? ':' head with
  | some (context, lead) => (context, lead)
  | none => ([], head)

/-- Reads a remapping from its text. -/
def parseText (text : String) : Except ConfigurationError Remapping :=
  match cutFirst? '=' text.toList with
  | none => .error (.remappingWithoutTarget text)
  | some ([], _) => .error (.remappingWithoutTarget text)
  | some (head, target) =>
    let (context, lead) := splitHead head
    if lead.isEmpty then .error (.remappingWithoutLead text)
    else .ok ⟨String.ofList context, String.ofList lead, String.ofList target⟩

/-- Reads a remapping from a setting. -/
def parse : Data → Except ConfigurationError Remapping
  | .text s => parseText s
  | v => .error (.remappingNotText v)

/-- Writes a remapping; an empty context is left out. -/
def toString (r : Remapping) : String :=
  (if r.context.isEmpty then r.lead else r.context ++ ":" ++ r.lead) ++ "=" ++ r.target

/-- Whether the rule applies to a path imported by a source. -/
def appliesTo (r : Remapping) (importer path : String) : Bool :=
  beginsWith r.context importer && beginsWith r.lead path

/-- The path with as many characters replaced by the target as the lead has. -/
def apply (r : Remapping) (path : String) : String :=
  r.target ++ String.ofList (path.toList.drop r.lead.length)

/-- Whether `r` is at least as specific as `best`: by the length of the context, then of the
lead. -/
def asSpecificAs (r best : Remapping) : Bool :=
  best.context.length < r.context.length
    || (best.context.length == r.context.length && best.lead.length ≤ r.lead.length)

/-- The most specific rule that applies, the last one of equals; `best` is the one found so far. -/
def choose (importer path : String) (best : Option Remapping) : List Remapping → Option Remapping
  | [] => best
  | r :: rest =>
    if !r.appliesTo importer path then choose importer path best rest
    else
      match best with
      | none => choose importer path (some r) rest
      | some b => choose importer path (some (if r.asSpecificAs b then r else b)) rest

end Remapping

/-- An import path rewritten by the most specific rule that applies, in normal form; a path that no
rule applies to is left alone. -/
def remapPath (rules : List Remapping) (importer path : String) : String :=
  match Remapping.choose importer path none rules with
  | none => path
  | some r => normalisePath (r.apply path)

end LanguageServer
