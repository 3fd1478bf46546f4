import LanguageServer.Action
import LanguageServer.Settings.Configuration

/-!
# Workspaces

A workspace holds the tracked documents, the configuration, and what is known from the
latest compilation.  An engine knows documents by source names: a file URI is known by
its path, any other document by its URI.

Places that the engine reports are translated in the texts of the latest compilation,
not in those of the documents, which may have changed since.  A text is indexed when a
place in it is first translated, and the index is kept until the next compilation
succeeds.

## Main definitions

* `Environment` — files and engines, which never change.
* `Workspace` — the state.
* `sourceNameFor`, `Workspace.uriFor` — from URIs to source names and back.
* `Workspace.lineIndex?` — the index in which places of a source are translated.
* `Workspace.toRange`, `Workspace.toLocation` — the same as actions, which keep the index.
-/

namespace LanguageServer

/-- What surrounds a workspace and never changes. -/
structure Environment where
  files : FileSystem
  engines : EngineFactory
  /-- Who is named as the source of diagnostics. -/
  reporter : String

/-- The latest compilation that succeeded, and the generation of the store that it saw. -/
structure Snapshot where
  program : Program
  generation : Nat

/-- The documents, the configuration, and what is known from the latest compilation. -/
structure Workspace where
  store : DocumentStore
  configuration : Configuration
  /-- The workspace root, from which relative paths are seen. -/
  base : Option Path
  snapshot : Option Snapshot
  /-- The texts by source name: those handed to the engine, and those it read. -/
  sources : Table String String
  /-- The URIs of the tracked documents by source name. -/
  uris : Table String String
  /-- The line indexes in use. -/
  indexes : Table String LineIndex
  /-- The texts that the engine read from disk. -/
  readTexts : Table String String
  /-- Why sources that the engine asked for were not served. -/
  readFailures : Table String ReadFailure
  /-- The target version that was last refused. -/
  refusedVersion : Option String
  /-- The URIs for which the client was last shown some diagnostic. -/
  published : List String
  /-- The number of compilations that were begun. -/
  compilations : Nat

namespace Workspace

/-- The workspace in which nothing has happened. -/
def empty : Workspace where
  store := .empty
  configuration := {}
  base := none
  snapshot := none
  sources := .empty
  uris := .empty
  indexes := .empty
  readTexts := .empty
  readFailures := .empty
  refusedVersion := none
  published := []
  compilations := 0

end Workspace

/-! ## Source names -/

/-- The name by which the engine knows a document: the path of a file URI, if it has one, else the
URI itself. -/
def sourceNameFor (uri : String) : Except Uri.UriError String :=
  if Text.beginsWith "file:" uri then do
    match ← Uri.toPath? uri with
    | some path => return if path.isEmpty then uri else path
    | none => return uri
  else .ok uri

namespace Workspace

/-- The URI of a source: that of its document, or the one of the path that the name spells. -/
def uriFor (ws : Workspace) (name : String) : Except Uri.UriError String :=
  match ws.uris.find? name with
  | some uri => .ok uri
  | none => if Uri.hasAuthorityMark name.toList then .ok name else Uri.ofPath name

/-- The directories from which sources may be read; if there is none, any may. -/
def allowedDirectories (ws : Workspace) : List Path :=
  ws.base.toList ++ ws.configuration.includePaths

/-! ## Translating places -/

/-- The index in which places of a source are translated. -/
def lineIndex? (ws : Workspace) (name : String) : Option LineIndex :=
  match ws.indexes.find? name with
  | some index => some index
  | none => (ws.sources.find? name).map LineIndex.ofString

/-- The workspace after the index of a source was used. -/
def remember (ws : Workspace) (name : String) : Workspace :=
  match ws.lineIndex? name with
  | some index => { ws with indexes := ws.indexes.insert name index }
  | none => ws

/-- The range of a place, if its source is known. -/
def range? (ws : Workspace) (l : SourceLocation) : Option Range :=
  (ws.lineIndex? l.source).map fun index => index.rangeOf l.start l.stop

/-- Using an index changes no index. -/
@[simp] theorem lineIndex?_remember (ws : Workspace) (name other : String) :
    (ws.remember name).lineIndex? other = ws.lineIndex? other := by
  unfold remember
  split
  · rename_i index h
    by_cases hn : name = other
    · subst hn
      simp only [lineIndex?, Table.find?_insert, if_true]
      simpa [lineIndex?] using h.symm
    · simp [lineIndex?, hn]
  · rfl

/-- The index of a source, which is kept from now on. -/
def indexOf (name : String) : Action Workspace (Option LineIndex) := do
  let ws ← Action.state
  Action.update (·.remember name)
  return ws.lineIndex? name

/-- The URI of a source. -/
def uriOf (name : String) : Action Workspace String := do
  Action.ofExcept .uri ((← Action.state).uriFor name)

/-- The offset of a position in a source. -/
def offsetAt (name : String) (p : Position) : Action Workspace Nat := do
  match ← indexOf name with
  | none => Action.stop (.unknownSource name)
  | some index => Action.ofExcept .position (index.offsetAt p)

/-- The range of a place, if its source is known. -/
def toRange (l : SourceLocation) : Action Workspace (Option Range) := do
  return (← indexOf l.source).map fun index => index.rangeOf l.start l.stop

/-- The place in a document, if its source is known. -/
def toLocation (l : SourceLocation) : Action Workspace (Option Location) := do
  match ← toRange l with
  | none => return none
  | some range => return some ⟨← uriOf l.source, range⟩

@[simp] theorem run_indexOf (name : String) (ws : Workspace) :
    (indexOf name).run ws = ⟨[], .ok (ws.lineIndex? name), ws.remember name⟩ := rfl

@[simp] theorem run_toRange (l : SourceLocation) (ws : Workspace) :
    (toRange l).run ws = ⟨[], .ok (ws.range? l), ws.remember l.source⟩ := rfl

end Workspace

end LanguageServer
