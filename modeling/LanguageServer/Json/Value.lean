import LanguageServer.Number.Binary64
import LanguageServer.Table

/-!
# JSON values

Objects keep their members in the order in which the keys first appeared, and whole
numbers are kept apart from floating point ones: `1.0` is no identifier and no
version.

## Main definitions

* `Json` — the values.
* `Json.field?` — a member of an object.
-/

namespace LanguageServer

/-- A JSON value.  Members of an object stand in the order of their keys' first appearance. -/
inductive Json where
  | null
  | bool (b : Bool)
  | int (i : Int)
  | float (x : Binary64)
  | str (s : String)
  | arr (items : List Json)
  | obj (members : List (String × Json))
  deriving Inhabited

namespace Json

/-- The member `key` of an object; nothing for any other value. -/
def field? (key : String) : Json → Option Json
  | .obj members => Table.findIn key members
  | _ => none

/-- The member `key` of an object, with an absent one read as null. -/
def fieldOrNull (key : String) (v : Json) : Json := (v.field? key).getD .null

/-- Whether the value is null. -/
def isNull : Json → Bool
  | .null => true
  | _ => false

/-- The text of a string value. -/
def text? : Json → Option String
  | .str s => some s
  | _ => none

/-- A whole number; truth values and floating point numbers are none. -/
def integer? : Json → Option Int
  | .int i => some i
  | _ => none

/-- The items of an array. -/
def items? : Json → Option (List Json)
  | .arr items => some items
  | _ => none

/-- Whether the value counts as present: null, false, zero and everything empty do not. -/
def isTruthy : Json → Bool
  | .null => false
  | .bool b => b
  | .int i => i != 0
  | .float x => !x.isZero
  | .str s => !s.isEmpty
  | .arr items => !items.isEmpty
  | .obj members => !members.isEmpty

/-- A natural number as a JSON value. -/
def ofNat (n : Nat) : Json := .int n

/-- The value, or null. -/
def ofOption {α : Type} (f : α → Json) : Option α → Json
  | none => .null
  | some a => f a

/-- The members of an object that are present. -/
def objOfSome (members : List (String × Option Json)) : Json :=
  .obj (members.filterMap fun m => m.2.map (m.1, ·))

@[simp] theorem field?_obj (key : String) (members : List (String × Json)) :
    (Json.obj members).field? key = Table.findIn key members := rfl

end Json

end LanguageServer
