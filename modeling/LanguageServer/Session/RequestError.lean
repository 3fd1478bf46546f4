import LanguageServer.Json.Value

/-!
# Errors that answer a request

A request that fails is answered with a code and a message.  Each kind of failure has
its code; a failure may also carry a code of its own.

## Main definitions

* `ErrorKind`, `ErrorKind.code` — the kinds of failure and their codes.
* `RequestError` — a code and a message.
-/

namespace LanguageServer

/-- The kinds of failure that the protocol tells apart. -/
inductive ErrorKind where
  | parseError
  | invalidRequest
  | methodNotFound
  | invalidParams
  | serverNotInitialized
  | internalError
  | requestFailed
  deriving DecidableEq, Repr

/-- The code of a kind of failure. -/
def ErrorKind.code : ErrorKind → Int
  | .parseError => -32700
  | .invalidRequest => -32600
  | .methodNotFound => -32601
  | .invalidParams => -32602
  | .serverNotInitialized => -32002
  | .internalError => -32603
  | .requestFailed => -32803

/-- A failure as the client sees it. -/
structure RequestError where
  code : Int
  message : String
  deriving DecidableEq, Repr

namespace RequestError

/-- A failure of a kind. -/
def of (kind : ErrorKind) (message : String) : RequestError := ⟨kind.code, message⟩

/-- The wire form of a failure. -/
def toJson (e : RequestError) : Json := .obj [("code", .int e.code), ("message", .str e.message)]

end RequestError

end LanguageServer
