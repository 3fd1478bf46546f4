import LanguageServer.LineIndex

/-!
# The document store

The texts of all documents that the client has sent, independent of what is on disk.
A document that is closed keeps its text, because open documents may still import
it; only eviction forgets it.  An edit that does not fit the text is refused as a
whole, and a refused operation yields no new store.

## Main definitions

* `Document` — a text with its URI, language, version and revision.
* `Edit` — the replacement of a whole text or of a range.
* `DocumentStore` — documents in insertion order, the open ones, and a change counter.
* `DocumentStore.track`, `applyEdits`, `close`, `evict` — the operations.
-/

namespace LanguageServer

/-- A document known to the server. -/
structure Document where
  uri : String
  /-- The language as the client named it, any scalar value. -/
  language : Json
  /-- The client's version, if the client numbers this document. -/
  version : Option Int
  content : String
  /-- Counts the changes of the document. -/
  revision : Nat

/-- A change of a text: all of it, or the part in a range. -/
inductive Edit where
  | replace (text : String)
  | splice (range : Range) (text : String)
  deriving DecidableEq, Repr

/-- Why the store refuses an operation. -/
inductive StoreError where
  | unknown (uri : String)
  | misfit (uri : String) (cause : PositionError)
  deriving DecidableEq, Repr

/-- The wording of a refusal. -/
def StoreError.message : StoreError → String
  | .unknown uri => "Unknown document: " ++ uri
  | .misfit uri cause => uri ++ ": " ++ cause.message

/-! ## Editing a text -/

/-- The text with the characters from `start` up to `stop` replaced. -/
def spliceText (s : List Char) (start stop : Nat) (new : List Char) : List Char :=
  s.take start ++ new ++ s.drop stop

/-- One edit of a text.  A range is read in the text it applies to. -/
def Edit.apply (e : Edit) (content : String) : Except PositionError String :=
  match e with
  | .replace text => .ok text
  | .splice range text => do
    let (start, stop) ← (LineIndex.ofString content).rangeOffsets range
    return String.ofList (spliceText content.toList start stop text.toList)

/-- Edits one after the other, each in the text that the earlier ones left. -/
def applyEdits (content : String) : List Edit → Except PositionError String
  | [] => .ok content
  | e :: rest => do applyEdits (← e.apply content) rest

/-- The version after a change that names `new`: a missing or a lower one changes nothing. -/
def nextVersion (current new : Option Int) : Option Int :=
  match new, current with
  | none, _ => current
  | some v, none => some v
  | some v, some c => if v < c then some c else some v

/-- The document after a change. -/
def Document.changed (d : Document) (version : Option Int) (content : String) : Document :=
  { d with content, revision := d.revision + 1, version := nextVersion d.version version }

/-! ## The store -/

/-- Documents in insertion order.  The generation counts the changes of the store. -/
structure DocumentStore where
  documents : Table String Document
  openUris : List String
  generation : Nat

namespace DocumentStore

/-- The store without documents. -/
def empty : DocumentStore := ⟨.empty, [], 0⟩

/-- The document with a URI. -/
def find? (s : DocumentStore) (uri : String) : Option Document := s.documents.find? uri

/-- The document with a URI, or the refusal of an unknown one. -/
def get (s : DocumentStore) (uri : String) : Except StoreError Document :=
  match s.find? uri with
  | some d => .ok d
  | none => .error (.unknown uri)

/-- Whether a document with this URI is tracked. -/
def contains (s : DocumentStore) (uri : String) : Bool := s.documents.contains uri

/-- Whether the document is open. -/
def isOpen (s : DocumentStore) (uri : String) : Bool := s.openUris.contains uri

/-- All tracked documents, in insertion order. -/
def toList (s : DocumentStore) : List Document := s.documents.values

/-- The number of tracked documents. -/
def size (s : DocumentStore) : Nat := s.documents.size

/-- Adds a URI to the open ones. -/
def markOpen (uri : String) (uris : List String) : List String :=
  if uri ∈ uris then uris else uris ++ [uri]

/-- Tracks an opened document.  One that is tracked already is overwritten in its place and
continues its revisions. -/
def track (s : DocumentStore) (uri : String) (language : Json) (version : Option Int)
    (content : String) : DocumentStore :=
  let revision := match s.find? uri with
    | some previous => previous.revision + 1
    | none => 0
  { documents := s.documents.insert uri { uri, language, version, content, revision }
    openUris := markOpen uri s.openUris
    generation := s.generation + 1 }

/-- Applies a batch of edits in order, all or none.  A batch without edits changes the version
only. -/
def applyEdits (s : DocumentStore) (uri : String) (version : Option Int) (edits : List Edit) :
    Except StoreError DocumentStore := do
  let d ← s.get uri
  match LanguageServer.applyEdits d.content edits with
  | .error cause => .error (.misfit uri cause)
  | .ok content =>
    return { s with
      documents := s.documents.insert uri (d.changed version content)
      generation := s.generation + 1 }

/-- Replaces the whole text. -/
def replaceAll (s : DocumentStore) (uri : String) (version : Option Int) (text : String) :
    Except StoreError DocumentStore :=
  s.applyEdits uri version [.replace text]

/-- Replaces the text in a range. -/
def replaceRange (s : DocumentStore) (uri : String) (version : Option Int) (range : Range)
    (text : String) : Except StoreError DocumentStore :=
  s.applyEdits uri version [.splice range text]

/-- Changes the version only. -/
def bumpVersion (s : DocumentStore) (uri : String) (version : Option Int) :
    Except StoreError DocumentStore :=
  s.applyEdits uri version []

/-- Marks a document closed; its text stays. -/
def close (s : DocumentStore) (uri : String) : Except StoreError DocumentStore := do
  let _ ← s.get uri
  return { s with
    openUris := s.openUris.filter (· ≠ uri)
    generation := s.generation + 1 }

/-- Forgets the closed documents among `uris`, one after the other, and lists those it forgot. -/
def evictEach (s : DocumentStore) : List String → DocumentStore × List String
  | [] => (s, [])
  | uri :: rest =>
    if s.contains uri && !s.isOpen uri then
      let (s', evicted) := evictEach { s with documents := s.documents.erase uri } rest
      (s', uri :: evicted)
    else evictEach s rest

/-- Forgets the closed documents among `uris`; an open document is never forgotten.  The store
counts as changed only if some document went. -/
def evict (s : DocumentStore) (uris : List String) : DocumentStore × List String :=
  let (s', evicted) := s.evictEach uris
  if evicted.isEmpty then (s', evicted)
  else ({ s' with generation := s'.generation + 1 }, evicted)

end DocumentStore

end LanguageServer
