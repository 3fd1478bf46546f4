import LanguageServer.Files.FileSystem
import LanguageServer.Settings.Remapping
import LanguageServer.Text.Blank
import LanguageServer.Yaml.Document

/-!
# The configuration of a workspace

Settings that influence every compilation.  The defaults come from a file in the
workspace root; the client can change them one entry at a time.  An entry that is not
valid is reported and leaves its value alone, and the valid entries beside it apply.

## Main definitions

* `Configuration` — remappings, target version, include paths.
* `Configuration.update` — settings applied on top, with what was refused.
* `Configuration.load` — the configuration of a workspace root.
-/

namespace LanguageServer

open LanguageServer.Text

/-- The settings that every compilation reads. -/
structure Configuration where
  remappings : List Remapping := []
  targetVersion : Option String := none
  includePaths : List Path := []
  deriving DecidableEq, Repr

namespace Configuration

/-- The name of the file in the workspace root. -/
def fileName : String := ".compilerls.yaml"

/-- Settings may stand in a section of this name. -/
def sectionName : String := "compilerls"

/-- The entries that are read: those of the section, if it is a mapping. -/
def sectionOf (settings : Data) : Data :=
  match settings.valueAt? sectionName with
  | some (.map entries) => .map entries
  | _ => settings

/-- The entry under the first name, or under the second if the first is missing. -/
def entryNamed? (settings : Data) (name otherwise : String) : Option Data :=
  match settings.valueAt? name with
  | some v => some v
  | none => settings.valueAt? otherwise

/-- An entry that is present and not null. -/
def present? (entry : Option Data) : Option Data := entry.filter (!·.isNull)

/-- The remappings in a list, and the refusals of those that are none. -/
def readRemappings : List Data → List Remapping × List ConfigurationError
  | [] => ([], [])
  | v :: rest =>
    let (rules, errors) := readRemappings rest
    match Remapping.parse v with
    | .ok r => (r :: rules, errors)
    | .error e => (rules, e :: errors)

/-- Applies the remappings of the settings. -/
def updateRemappings (c : Configuration) (settings : Data) :
    Configuration × List ConfigurationError :=
  match present? (settings.valueAt? "remappings") with
  | none => (c, [])
  | some (.list items) =>
    let (rules, errors) := readRemappings items
    ({ c with remappings := rules }, errors)
  | some _ => (c, [.remappingsNotList])

/-- Applies the target version of the settings, without the white space around it. -/
def updateTargetVersion (c : Configuration) (settings : Data) :
    Configuration × List ConfigurationError :=
  match present? (entryNamed? settings "targetVersion" "target_version") with
  | none => (c, [])
  | some v =>
    match v with
    | .text s =>
      let version := trim s.toList
      if version.isEmpty then (c, [.invalidTargetVersion v])
      else ({ c with targetVersion := some (String.ofList version) }, [])
    | _ => (c, [.invalidTargetVersion v])

/-- An include path as it is kept: seen from the base, if there is one, and resolved. -/
def resolveInclude (fs : FileSystem) (base : Option Path) (text : String) :
    Except PathError Path :=
  let p := Path.ofString text
  fs.resolve? (match base with
    | none => p
    | some b => b.join p)

/-- Applies the include paths of the settings.  A path that no file can have stops the update. -/
def updateIncludePaths (fs : FileSystem) (base : Option Path) (c : Configuration)
    (settings : Data) : Except PathError (Configuration × List ConfigurationError) :=
  match present? (entryNamed? settings "includePaths" "include_paths") with
  | none => .ok (c, [])
  | some (.list items) =>
    match items.mapM Data.text? with
    | some texts => do
      let paths ← texts.mapM (resolveInclude fs base)
      return ({ c with includePaths := paths }, [])
    | none => .ok (c, [.includePathsNotTexts])
  | some _ => .ok (c, [.includePathsNotTexts])

/-- Applies settings on top of the current values.  Relative include paths are seen from `base`.
The refusals are listed in the order of the entries; a path that no file can have stops the update
behind the entries before it. -/
def update (fs : FileSystem) (base : Option Path) (c : Configuration) (settings : Data) :
    Configuration × Except PathError (List ConfigurationError) :=
  match settings with
  | .null => (c, .ok [])
  | .map entries =>
    let s := sectionOf (.map entries)
    let (c, e₁) := c.updateRemappings s
    let (c, e₂) := c.updateTargetVersion s
    match updateIncludePaths fs base c s with
    | .ok (c, e₃) => (c, .ok (e₁ ++ e₂ ++ e₃))
    | .error e => (c, .error e)
  | v => (c, .ok [.settingsNotMapping v])

/-- Why a configuration cannot be loaded: its file is refused, holds no text, or names a path that no
file can have. -/
inductive LoadError where
  | refused (cause : ConfigurationError)
  | notText
  | unresolvable (cause : PathError)

/-- Reads a configuration from the text of the file at `file`. -/
def ofFileText (fs : FileSystem) (root : Path) (file : String) (text : String) :
    Except LoadError Configuration :=
  match Yaml.read? text with
  | none => .error (.refused (.unreadableFile file))
  | some .null => .ok {}
  | some (.map entries) =>
    match update fs (some root) {} (.map entries) with
    | (c, .ok []) => .ok c
    | (_, .ok errors) => .error (.refused (.rejectedFile file errors))
    | (_, .error e) => .error (.unresolvable e)
  | some _ => .error (.refused (.fileNotMapping file))

/-- The configuration of a workspace root; a missing file gives the defaults. -/
def load (fs : FileSystem) (root : Path) : Except LoadError Configuration :=
  let file := root.child fileName
  match fs.readText file with
  | .ok text => ofFileText fs root file.toString text
  | .error (.notText _) => .error .notText
  | .error _ => .ok {}

end Configuration

end LanguageServer
