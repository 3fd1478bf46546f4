import LanguageServer.Document.Store
import LanguageServer.Files.FileSystem
import LanguageServer.Files.Uri
import LanguageServer.Session.RequestError

/-!
# Faults

Why an operation stops before its end.  A fault keeps its cause; what the client reads
of it is decided in one place.

## Main definitions

* `Fault` — the causes.
* `Fault.label`, `Fault.description` — how a fault is named to the client.
-/

namespace LanguageServer

/-- Why an operation stops before its end. -/
inductive Fault where
  /-- The client's request is refused. -/
  | refused (error : RequestError)
  /-- The channel to the client failed. -/
  | channel (reason : String)
  | store (error : StoreError)
  | position (error : PositionError)
  | uri (error : Uri.UriError)
  | path (error : PathError)
  /-- The engine broke down. -/
  | engine (reason : String)
  /-- The engine exceeded its budget. -/
  | endless
  /-- A document version outside the range of the protocol. -/
  | versionRange (version : Int)
  /-- A message longer than any stream can hold. -/
  | oversized
  /-- A configuration file that holds no text. -/
  | fileNotText
  /-- A source that took no part in the latest compilation. -/
  | unknownSource (name : String)
  /-- A value that lacks what is asked of it. -/
  | lacking
  /-- A value that has no items where items are needed. -/
  | notItems
  /-- A value that cannot be a key. -/
  | notKey
  deriving DecidableEq, Repr

namespace Fault

/-- The name of a sort of faults. -/
def label : Fault → String
  | .refused _ => "RequestError"
  | .channel _ => "TransportError"
  | .store (.unknown _) => "UnknownDocumentError"
  | .store (.misfit _ _) => "DocumentRangeError"
  | .position _ => "PositionError"
  | .uri _ => "ValueError"
  | .path _ => "ValueError"
  | .engine _ => "RuntimeError"
  | .endless => "RuntimeError"
  | .versionRange _ => "ValueError"
  | .oversized => "OverflowError"
  | .fileNotText => "UnicodeDecodeError"
  | .unknownSource _ => "KeyError"
  | .lacking => "AttributeError"
  | .notItems => "TypeError"
  | .notKey => "TypeError"

/-- What a fault says beyond its name, if that comes from this library or from the engine. -/
def message? : Fault → Option String
  | .refused e => some e.message
  | .channel reason => some reason
  | .store e => some e.message
  | .position e => some e.message
  | .engine reason => some reason
  | .endless => some "compilation exceeded its budget"
  | _ => none

/-- A fault that is no answer to a request, as the client reads it.  Only the engine's own words are
passed on. -/
def description : Fault → String
  | .engine reason => label (.engine reason) ++ ": " ++ reason
  | .endless => label .endless ++ ": " ++ (message? .endless).getD ""
  | f => f.label

end Fault

end LanguageServer
