import LanguageServer.Document.Store

/-!
# Operations on the document store

The operations of the store as data, with what they answer.  One that is refused leaves the
store as it was, so a run goes on behind it.

## Main definitions

* `StoreOperation`, `StoreAnswer` — an operation, and what it answers.
* `DocumentStore.perform` — what an operation leaves behind, and its answer or its refusal.
* `DocumentStore.run` — the store after operations, whether they succeed or not.
-/

namespace LanguageServer

/-- An operation on a store. -/
inductive StoreOperation where
  | track (uri : String) (language : Json) (version : Option Int) (content : String)
  | applyEdits (uri : String) (version : Option Int) (edits : List Edit)
  | replaceAll (uri : String) (version : Option Int) (text : String)
  | replaceRange (uri : String) (version : Option Int) (range : Range) (text : String)
  | bumpVersion (uri : String) (version : Option Int)
  | close (uri : String)
  | evict (uris : List String)
  | get (uri : String)
  | lineIndex (uri : String)

/-- What an operation answers that is not refused. -/
inductive StoreAnswer where
  | done
  | evicted (uris : List String)
  | document (d : Document)
  | index (index : LineIndex)

namespace DocumentStore

/-- What an operation leaves behind that may be refused. -/
def settle (s : DocumentStore) :
    Except StoreError DocumentStore → DocumentStore × Except StoreError Unit
  | .ok s' => (s', .ok ())
  | .error e => (s, .error e)

/-- Performs an operation. -/
def perform (s : DocumentStore) : StoreOperation → DocumentStore × Except StoreError StoreAnswer
  | .track uri language version content => (s.track uri language version content, .ok .done)
  | .applyEdits uri version edits => done (s.applyEdits uri version edits)
  | .replaceAll uri version text => done (s.replaceAll uri version text)
  | .replaceRange uri version range text => done (s.replaceRange uri version range text)
  | .bumpVersion uri version => done (s.bumpVersion uri version)
  | .close uri => done (s.close uri)
  | .evict uris => let (s', evicted) := s.evict uris; (s', .ok (.evicted evicted))
  | .get uri => (s, (s.get uri).map .document)
  | .lineIndex uri => (s, (s.get uri).map fun d => .index (.ofString d.content))
where
  /-- An operation that answers nothing. -/
  done (r : Except StoreError DocumentStore) : DocumentStore × Except StoreError StoreAnswer :=
    let (s', result) := s.settle r
    (s', result.map fun _ => .done)

/-- The store after operations, one after the other. -/
def run (s : DocumentStore) (operations : List StoreOperation) : DocumentStore :=
  operations.foldl (fun s operation => (s.perform operation).1) s

end DocumentStore

end LanguageServer
