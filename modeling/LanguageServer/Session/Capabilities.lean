import LanguageServer.Action
import LanguageServer.Session.Params

/-!
# Capabilities

A session knows nothing about documents or compilers.  It reads messages, and asks its
capabilities to do what a message says.  Capabilities have a state of their own; they
are actions on it, so all they can do to the session is to say something or to fail.

## Main definitions

* `Capabilities` — what a session asks for.
* `Capabilities.bare` — capabilities that do nothing.
-/

namespace LanguageServer

/-- How the server presents itself. -/
structure ServerId where
  name : String
  version : Option String

/-- A folder of the workspace as the client names it; neither part need be a text. -/
structure WorkspaceFolder where
  name : Json
  uri : Json

/-- What a session asks for. -/
structure Capabilities (γ : Type) where
  /-- Prepares for a workspace with a root, some folders, and options. -/
  initialise (root : Json) (folders : List WorkspaceFolder) (options : Json) : Action γ ServerId
  /-- The client is ready too. -/
  initialised : Action γ Unit
  changeConfiguration (settings : Json) : Action γ Unit
  documentOpened (d : Params.Opened) : Action γ Unit
  /-- A document was edited.  The URI is the value that the client sent. -/
  documentChanged (uri : Json) (version : Option Int) (changes : List ContentChange) :
    Action γ Unit
  documentClosed (uri : String) : Action γ Unit
  definition (uri : String) (p : Position) : Action γ (List Location)
  references (uri : String) (p : Position) : Action γ (List Location)
  highlights (uri : String) (p : Position) : Action γ (List Highlight)

/-- Capabilities that do nothing and find nothing. -/
def Capabilities.bare (id : ServerId) : Capabilities Unit where
  initialise _ _ _ := return id
  initialised := return
  changeConfiguration _ := return
  documentOpened _ := return
  documentChanged _ _ _ := return
  documentClosed _ := return
  definition _ _ := return []
  references _ _ := return []
  highlights _ _ := return []

end LanguageServer
