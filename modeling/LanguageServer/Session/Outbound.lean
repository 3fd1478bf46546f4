import LanguageServer.Action

/-!
# Messages to the client

A response carries the identifier of its request, or null if there is none that could be
trusted.  Everything else that is sent is a notification.

## Main definitions

* `Outbound` — the messages that the server sends.
* `Outbound.toJson` — their wire form.
-/

namespace LanguageServer

/-- A message to the client. -/
inductive Outbound where
  | result (id value : Json)
  | failure (id : Json) (error : RequestError)
  | log (level : LogLevel) (message : String)
  | publish (uri : String) (version : Option Int) (diagnostics : List Diagnostic)
  | trace (message : String) (verbose : Option String)

namespace Outbound

/-- Whether the message answers a request. -/
def isResponse : Outbound → Bool
  | .result .. => true
  | .failure .. => true
  | _ => false

/-- The version of the protocol that every message names. -/
def protocolVersion : String × Json := ("jsonrpc", .str "2.0")

/-- The wire form of a notification. -/
def notification (method : String) (params : Json) : Json :=
  .obj [protocolVersion, ("method", .str method), ("params", params)]

/-- The wire form of a message; what is missing is left out. -/
def toJson : Outbound → Json
  | .result id value => .obj [protocolVersion, ("id", id), ("result", value)]
  | .failure id error => .obj [protocolVersion, ("id", id), ("error", error.toJson)]
  | .log level message =>
    notification "window/logMessage"
      (.obj [("type", .int level.number), ("message", .str message)])
  | .publish uri version diagnostics =>
    notification "textDocument/publishDiagnostics"
      (Json.objOfSome
        [("uri", some (.str uri)),
          ("diagnostics", some (.arr (diagnostics.map Diagnostic.toJson))),
          ("version", version.map .int)])
  | .trace message verbose =>
    notification "$/logTrace"
      (Json.objOfSome [("message", some (.str message)), ("verbose", verbose.map .str)])

end Outbound

end LanguageServer
