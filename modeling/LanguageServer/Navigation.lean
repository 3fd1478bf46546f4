import LanguageServer.Text.Order
import LanguageServer.Workspace.Compile

/-!
# Navigation

Which node is under the cursor, what it refers to, and where else that is used.  Symbols
are matched by the handles of their declarations only, so that two symbols of one
spelling are never confused.

## Main definitions

* `innermost` — the smallest node of a tree that an offset touches.
* `Program.declarationOf?` — the declaration that a node refers to or introduces.
* `occurrences` — the places of a declaration in a unit.
* `Navigation.definition`, `references`, `highlights` — the answers to queries.
-/

namespace LanguageServer

/-! ## The node under the cursor -/

/-- The node that is kept of a candidate and the best one before it: the shorter, and of equals the
later. -/
def preferLater (best : Option Node) (n : Node) : Node :=
  match best with
  | none => n
  | some b => if n.location.length ≤ b.location.length then n else b

/-- Looks for the smallest node among the trees on a stack.  The children of a node are looked at
from the last to the first; below a node that the offset does not touch nothing is looked at. -/
def innermostFrom (offset : Int) (best : Option Node) : List Node → Option Node
  | [] => best
  | n :: stack =>
    if n.location.contains offset then
      innermostFrom offset (some (preferLater best n)) (n.children.reverse ++ stack)
    else innermostFrom offset best stack
termination_by stack => Node.sizeAll stack
decreasing_by
  · simp [Node.sizeAll, Node.size_eq, Node.sizeAll_reverse]
  · simp only [Node.sizeAll, Node.size_eq]
    omega

/-- The smallest node of a tree that an offset touches. -/
def innermost (root : Node) (offset : Int) : Option Node := innermostFrom offset none [root]

/-- The declaration that a node refers to, or else introduces. -/
def Program.declarationOf? (program : Program) (n : Node) : Option Declaration :=
  match n.label.references, n.label.declares with
  | some handle, _ => program.declarations.find? handle
  | none, some handle => program.declarations.find? handle
  | none, none => none

/-! ## Occurrences -/

/-- One place at which a declaration occurs, and how it is used there. -/
structure Occurrence where
  location : SourceLocation
  access : Access
  deriving DecidableEq, Repr

/-- The occurrence of a declaration at a node: a node that refers to it stands for itself, and the
node that introduces it for the name in it. -/
def occurrenceAt? (d : Declaration) (n : Node) : Option Occurrence :=
  if n.label.references = some d.handle then some ⟨n.location, n.label.access⟩
  else if n.label.declares = some d.handle then some ⟨d.location, n.label.access⟩
  else none

/-- Keeps the first occurrence at each place. -/
def distinctPlaces (seen : List SourceLocation) : List Occurrence → List Occurrence
  | [] => []
  | o :: rest =>
    if o.location ∈ seen then distinctPlaces seen rest
    else o :: distinctPlaces (o.location :: seen) rest

/-- Whether one occurrence stands at or before another. -/
def Occurrence.atMost (a b : Occurrence) : Bool :=
  a.location.start < b.location.start
    || (a.location.start == b.location.start && a.location.stop ≤ b.location.stop)

/-- The occurrences of a declaration in a unit, by place.  Only places in the unit count. -/
def occurrences (d : Declaration) (u : CompiledUnit) : List Occurrence :=
  let found := (u.root.walk.filterMap (occurrenceAt? d)).filter (·.location.source == u.source)
  (distinctPlaces [] found).mergeSort Occurrence.atMost

/-! ## Queries -/

namespace Navigation

/-- The offset of a position in a source, if it has one. -/
def offset? (source : String) (p : Position) : Action Workspace (Option Nat) := do
  return ((← Workspace.indexOf source).map (·.offsetAt p)).bind Except.toOption

/-- The smallest node at a position. -/
def nodeAt (program : Program) (source : String) (p : Position) :
    Action Workspace (Option Node) := do
  match program.units.find? source with
  | none => return none
  | some u => return (← offset? source p).bind fun offset => innermost u.root offset

/-- The declaration at a position. -/
def declarationAt (program : Program) (source : String) (p : Position) :
    Action Workspace (Option Declaration) := do
  return (← nodeAt program source p).bind program.declarationOf?

/-- Where the symbol at a position is declared. -/
def definition (program : Program) (source : String) (p : Position) :
    Action Workspace (List Location) := do
  match ← declarationAt program source p with
  | none => return []
  | some d => return (← Workspace.toLocation d.location).toList

/-- The highlight of an occurrence, if its source is known. -/
def highlightOf (o : Occurrence) : Action Workspace (Option Highlight) := do
  return (← Workspace.toRange o.location).map fun range => ⟨range, o.access⟩

/-- The highlights of occurrences, with the URI of the source in which they lie. -/
def locate (source : String) : List Occurrence → Action Workspace (List (String × Highlight))
  | [] => return []
  | o :: rest => do
    match ← highlightOf o with
    | none => locate source rest
    | some h =>
      let uri ← Workspace.uriOf source
      return (uri, h) :: (← locate source rest)

/-- The occurrences of a declaration in several units, unit by unit. -/
def locateAll (d : Declaration) :
    List (String × CompiledUnit) → Action Workspace (List (String × Highlight))
  | [] => return []
  | (name, u) :: rest => do
    let here ← locate name (occurrences d u)
    return here ++ (← locateAll d rest)

/-- The units of a program in the order of their names. -/
def unitsInOrder (program : Program) : List (String × CompiledUnit) :=
  (Text.sorted program.units.keys).filterMap fun name =>
    (program.units.find? name).map (name, ·)

/-- The occurrences of the symbol at a position in all units. -/
def allReferences (program : Program) (source : String) (p : Position) :
    Action Workspace (List (String × Highlight)) := do
  match ← declarationAt program source p with
  | none => return []
  | some d => locateAll d (unitsInOrder program)

/-- The places at which the symbol at a position occurs. -/
def references (program : Program) (source : String) (p : Position) :
    Action Workspace (List Location) := do
  return (← allReferences program source p).map fun r => ⟨r.1, r.2.range⟩

/-- The highlights of several occurrences. -/
def highlightAll : List Occurrence → Action Workspace (List Highlight)
  | [] => return []
  | o :: rest => do
    let h ← highlightOf o
    return h.toList ++ (← highlightAll rest)

/-- The places in the same source at which the symbol at a position occurs. -/
def highlights (program : Program) (source : String) (p : Position) :
    Action Workspace (List Highlight) := do
  match ← declarationAt program source p, program.units.find? source with
  | some d, some u => highlightAll (occurrences d u)
  | _, _ => return []

end Navigation

end LanguageServer
