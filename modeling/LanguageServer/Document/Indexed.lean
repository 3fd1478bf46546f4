import LanguageServer.Document.Operation

/-!
# Documents with their line indexes

To read a range in a text takes its line index, and to make one takes a look at the whole
text.  So the index of a document is made when it is first asked for, and it is kept until
the text is changed.  A batch of edits reads its first range through the index of the
document; the later ones apply to texts that no document has, and get indexes of their own.

A batch that is refused may still have made an index, so an operation on such a store leaves
a store behind in every case.

## Main definitions

* `IndexedDocument` — a document with its line index, if one is kept.
* `IndexedDocument.lineIndex` — the line index that is kept, or a new one.
* `applyEditsWith` — a batch of edits with an index at hand for the first one.
* `IndexedStore` — a store of such documents, with the operations of `DocumentStore`.
* `IndexedStore.view` — the store without the indexes.
-/

namespace LanguageServer

/-! ## Documents -/

/-- A document with its line index, if one is kept. -/
structure IndexedDocument extends Document where
  index? : Option LineIndex

namespace IndexedDocument

/-- The line index of a document: the one that is kept, or a new one, which is kept from then on. -/
def lineIndex (d : IndexedDocument) : LineIndex × IndexedDocument :=
  match d.index? with
  | some index => (index, d)
  | none =>
    let index := LineIndex.ofString d.content
    (index, { d with index? := some index })

/-- The document with a new text; the index of the old text is dropped. -/
def withContent (d : IndexedDocument) (content : String) : IndexedDocument :=
  { d with content, revision := d.revision + 1, index? := none }

/-- The document as changed, with its text; the index stays. -/
def touched (d : IndexedDocument) : IndexedDocument := { d with revision := d.revision + 1 }

/-- The document after a change that names a version. -/
def withVersion (d : IndexedDocument) (version : Option Int) : IndexedDocument :=
  { d with version := nextVersion d.version version }

/-- The document after a batch of edits that made `content` of its text.  A batch without edits
leaves the text, and with it the index. -/
def edited (d : IndexedDocument) (version : Option Int) (edits : List Edit) (content : String) :
    IndexedDocument :=
  (if edits.isEmpty then d.touched else d.withContent content).withVersion version

end IndexedDocument

/-! ## Edits with an index at hand -/

/-- One edit of a text.  A range is read through the index at hand, or through a new one. -/
def Edit.applyWith (e : Edit) (index? : Option LineIndex) (content : String) :
    Except PositionError String :=
  match e with
  | .replace text => .ok text
  | .splice range text => do
    let (start, stop) ← (index?.getD (LineIndex.ofString content)).rangeOffsets range
    return String.ofList (spliceText content.toList start stop text.toList)

/-- Edits one after the other.  The index at hand serves the first one only, whether that one
needs it or not. -/
def applyEditsWith (index? : Option LineIndex) (content : String) :
    List Edit → Except PositionError String
  | [] => .ok content
  | e :: rest => do applyEditsWith none (← e.applyWith index? content) rest

/-! ## The store -/

/-- A store of documents with their line indexes. -/
structure IndexedStore where
  documents : Table String IndexedDocument
  openUris : List String
  generation : Nat

namespace IndexedStore

/-- The store without documents. -/
def empty : IndexedStore := ⟨.empty, [], 0⟩

/-- The store without the indexes. -/
def view (s : IndexedStore) : DocumentStore :=
  ⟨s.documents.mapValues fun _ d => d.toDocument, s.openUris, s.generation⟩

/-- The document with a URI, or the refusal of an unknown one. -/
def get (s : IndexedStore) (uri : String) : Except StoreError IndexedDocument :=
  match s.documents.find? uri with
  | some d => .ok d
  | none => .error (.unknown uri)

/-- Tracks an opened document, without an index. -/
def track (s : IndexedStore) (uri : String) (language : Json) (version : Option Int)
    (content : String) : IndexedStore :=
  let revision := match s.documents.find? uri with
    | some previous => previous.revision + 1
    | none => 0
  { documents := s.documents.insert uri
      { uri, language, version, content, revision, index? := none }
    openUris := DocumentStore.markOpen uri s.openUris
    generation := s.generation + 1 }

/-- Applies a batch of edits in order, all or none.  The index of the document is asked for in any
case; it is dropped if the batch has an edit and succeeds. -/
def applyEdits (s : IndexedStore) (uri : String) (version : Option Int) (edits : List Edit) :
    IndexedStore × Except StoreError Unit :=
  match s.get uri with
  | .error e => (s, .error e)
  | .ok d =>
    let (index, d) := d.lineIndex
    match applyEditsWith (some index) d.content edits with
    | .error cause =>
      ({ s with documents := s.documents.insert uri d }, .error (.misfit uri cause))
    | .ok content =>
      ({ s with
          documents := s.documents.insert uri (d.edited version edits content)
          generation := s.generation + 1 }, .ok ())

/-- Replaces the whole text. -/
def replaceAll (s : IndexedStore) (uri : String) (version : Option Int) (text : String) :
    IndexedStore × Except StoreError Unit :=
  s.applyEdits uri version [.replace text]

/-- Replaces the text in a range. -/
def replaceRange (s : IndexedStore) (uri : String) (version : Option Int) (range : Range)
    (text : String) : IndexedStore × Except StoreError Unit :=
  s.applyEdits uri version [.splice range text]

/-- Changes the version only. -/
def bumpVersion (s : IndexedStore) (uri : String) (version : Option Int) :
    IndexedStore × Except StoreError Unit :=
  s.applyEdits uri version []

/-- Marks a document closed; its text stays. -/
def close (s : IndexedStore) (uri : String) : IndexedStore × Except StoreError Unit :=
  match s.get uri with
  | .error e => (s, .error e)
  | .ok _ =>
    ({ s with
        openUris := s.openUris.filter (· ≠ uri)
        generation := s.generation + 1 }, .ok ())

/-- Forgets the closed documents among `uris`, one after the other, and lists those it forgot. -/
def evictEach (s : IndexedStore) : List String → IndexedStore × List String
  | [] => (s, [])
  | uri :: rest =>
    if s.documents.contains uri && !s.openUris.contains uri then
      let (s', evicted) := evictEach { s with documents := s.documents.erase uri } rest
      (s', uri :: evicted)
    else evictEach s rest

/-- Forgets the closed documents among `uris`; an open document is never forgotten.  The store
counts as changed only if some document went. -/
def evict (s : IndexedStore) (uris : List String) : IndexedStore × List String :=
  let (s', evicted) := s.evictEach uris
  if evicted.isEmpty then (s', evicted)
  else ({ s' with generation := s'.generation + 1 }, evicted)

/-- The line index of a document, which is kept from then on. -/
def lineIndex (s : IndexedStore) (uri : String) : IndexedStore × Except StoreError LineIndex :=
  match s.get uri with
  | .error e => (s, .error e)
  | .ok d =>
    let (index, d) := d.lineIndex
    ({ s with documents := s.documents.insert uri d }, .ok index)

/-- Performs an operation. -/
def perform (s : IndexedStore) : StoreOperation → IndexedStore × Except StoreError StoreAnswer
  | .track uri language version content => (s.track uri language version content, .ok .done)
  | .applyEdits uri version edits => done (s.applyEdits uri version edits)
  | .replaceAll uri version text => done (s.replaceAll uri version text)
  | .replaceRange uri version range text => done (s.replaceRange uri version range text)
  | .bumpVersion uri version => done (s.bumpVersion uri version)
  | .close uri => done (s.close uri)
  | .evict uris => let (s', evicted) := s.evict uris; (s', .ok (.evicted evicted))
  | .get uri => (s, (s.get uri).map fun d => .document d.toDocument)
  | .lineIndex uri => let (s', result) := s.lineIndex uri; (s', result.map .index)
where
  /-- An operation that answers nothing. -/
  done (r : IndexedStore × Except StoreError Unit) : IndexedStore × Except StoreError StoreAnswer :=
    (r.1, r.2.map fun _ => .done)

/-- The store after operations, one after the other. -/
def run (s : IndexedStore) (operations : List StoreOperation) : IndexedStore :=
  operations.foldl (fun s operation => (s.perform operation).1) s

end IndexedStore

end LanguageServer
