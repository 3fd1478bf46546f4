import LanguageServer.Text.Order
import LanguageServer.Workspace.Compile

/-!
# Publishing diagnostics

Findings become diagnostics of the documents in whose sources they lie; a finding that
lies nowhere is logged.  Imports that could not be served are findings too, unless the
engine has something to say at the same place.

A document whose findings are gone is sent an empty list, so that the client stops
showing what it was told before.

## Main definitions

* `Workspace.importFailures` — the findings for imports that were not served.
* `Workspace.diagnosticsByUri` — all diagnostics by document.
* `Workspace.validate`, `validateAll`, `clear` — compile and publish.
-/

namespace LanguageServer.Workspace

/-! ## From findings to diagnostics -/

/-- The place that belongs to a diagnostic, if its source is known. -/
def toRelated (r : RelatedPlace) : Action Workspace (Option RelatedLocation) := do
  return (← toLocation r.location).map fun location => ⟨location, r.message⟩

/-- The places that belong to a diagnostic, without those in unknown sources. -/
def toRelatedAll : List RelatedPlace → Action Workspace (List RelatedLocation)
  | [] => return []
  | r :: rest => do
    let related ← toRelated r
    return related.toList ++ (← toRelatedAll rest)

/-- The diagnostic for a finding, if it lies in a known source. -/
def toDiagnostic (reporter : String) (f : Finding) : Action Workspace (Option Diagnostic) := do
  match f.location with
  | none => return none
  | some location =>
    match ← toRange location with
    | none => return none
    | some range =>
      let related ← toRelatedAll f.related
      return some
        { range, message := f.message, severity := some f.severity, code := f.code
          source := some reporter, flags := f.flags, related }

/-- The name under which failures of an import are kept: the source that it leads to, else its
path. -/
def importKey (label : NodeLabel) (path : String) : String :=
  match label.importedSource with
  | some source => if source.isEmpty then path else source
  | none => path

/-- The finding for an import that was not served. -/
def importFailure (path : String) (failure : ReadFailure) (location : SourceLocation) : Finding :=
  { severity := .error
    message := "Source \"" ++ path ++ "\" not found: " ++ failure.message
    location := some location }

/-- The finding for a node, if it is an import that was not served and about which nothing has been
reported. -/
def nodeFailure? (failures : Table String ReadFailure) (reported : List SourceLocation)
    (n : Node) : Option Finding := do
  let path ← n.label.importPath
  if reported.contains n.location then none
  else
    let failure ← failures.find? (importKey n.label path)
    return importFailure path failure n.location

/-- The findings for imports that were not served, unit by unit. -/
def importFailures (ws : Workspace) (program : Program) : List Finding :=
  let reported := program.findings.filterMap (·.location)
  program.units.values.flatMap fun u =>
    u.root.walk.filterMap (nodeFailure? ws.readFailures reported)

/-- Diagnostics by document. -/
abbrev DiagnosticTable := Table String (List Diagnostic)

/-- The diagnostics of a document. -/
def diagnosticsOf (t : DiagnosticTable) (uri : String) : List Diagnostic := (t.find? uri).getD []

/-- The level at which a finding that lies nowhere is logged. -/
def levelOf : Severity → LogLevel
  | .error => .error
  | _ => .warning

/-- Sorts findings by document, in order; those that lie nowhere are logged. -/
def sortFindings (reporter : String) (t : DiagnosticTable) :
    List Finding → Action Workspace DiagnosticTable
  | [] => return t
  | f :: rest => do
    match ← toDiagnostic reporter f, f.location with
    | some d, some location =>
      let uri ← uriOf location.source
      sortFindings reporter (t.insert uri (diagnosticsOf t uri ++ [d])) rest
    | _, _ =>
      Action.say (.log (levelOf f.severity) (f.severity.word ++ ": " ++ f.message))
      sortFindings reporter t rest

/-- All diagnostics by document: what the engine found, then the imports that were not served. -/
def diagnosticsByUri (env : Environment) (program : Program) :
    Action Workspace DiagnosticTable := do
  let ws ← Action.state
  sortFindings env.reporter .empty (program.findings ++ ws.importFailures program)

/-! ## Publishing -/

/-- The workspace after the client was shown diagnostics. -/
def notePublished (ws : Workspace) (uri : String) (diagnostics : List Diagnostic) : Workspace :=
  { ws with
    published :=
      if diagnostics.isEmpty then ws.published.filter (· ≠ uri)
      else if uri ∈ ws.published then ws.published
      else ws.published ++ [uri] }

/-- Publishes the diagnostics of a document. -/
def publish (uri : String) (version : Option Int) (diagnostics : List Diagnostic) :
    Action Workspace Unit := do
  Action.say (.publish uri version diagnostics)
  Action.update (·.notePublished uri diagnostics)

/-- The version of a document, if it is tracked and has one. -/
def versionOf (ws : Workspace) (uri : String) : Option Int :=
  (ws.store.find? uri).bind (·.version)

/-- Compiles and publishes the diagnostics of one document. -/
def validate (env : Environment) (uri : String) : Action Workspace Unit := do
  let document ← Action.ofExcept .store ((← Action.state).store.get uri)
  let program ← compile env
  let t ← diagnosticsByUri env program
  publish uri document.version (diagnosticsOf t uri)

/-- The documents whose diagnostics may have changed: those that are tracked, those for which the
client shows something, and those for which there is something to show. -/
def targets (ws : Workspace) (t : DiagnosticTable) : List String :=
  Text.sorted ((ws.store.toList.map (·.uri) ++ ws.published ++ t.keys).eraseDups)

/-- Publishes the diagnostics of a document with its version. -/
def publishFrom (t : DiagnosticTable) (uri : String) : Action Workspace Unit := do
  publish uri ((← Action.state).versionOf uri) (diagnosticsOf t uri)

/-- Compiles once and publishes the diagnostics of all documents. -/
def validateAll (env : Environment) : Action Workspace Unit := do
  let program ← compile env
  let t ← diagnosticsByUri env program
  Action.forAll (publishFrom t) ((← Action.state).targets t)

/-- Publishes that a document has no diagnostics. -/
def clear (uri : String) : Action Workspace Unit := do
  publish uri ((← Action.state).versionOf uri) []

end LanguageServer.Workspace
