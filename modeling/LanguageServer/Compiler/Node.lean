import LanguageServer.Compiler.SourceLocation

/-!
# Syntax trees

A compiler describes each source by a tree.  A node says where it stands, and it may
declare a symbol, refer to one, or import a source.  Symbols are told apart by the
handles of their declarations and never by their spelling.

The tree is listed in pre-order twice: by recursion over the tree, which is what the
order means, and by a walk with an explicit stack, which needs no call stack as deep as
the tree.

## Main definitions

* `Node` — a tree whose nodes carry a `NodeLabel`.
* `Node.preorder` — a node before its children, the children from left to right.
* `Node.walk` — the same list by an explicit stack.
-/

namespace LanguageServer

/-- How an identifier uses the symbol that it refers to. -/
inductive Access where
  | none
  | read
  | write
  deriving DecidableEq, Repr, Inhabited

/-- What a node says besides its children. -/
structure NodeLabel where
  /-- The compiler's word for this sort of node. -/
  kind : String
  location : SourceLocation
  /-- The spelling of a node that bears a name. -/
  name : Option String := none
  /-- The handle of the declaration that this node introduces. -/
  declares : Option Int := none
  /-- The handle of the declaration that this node refers to. -/
  references : Option Int := none
  access : Access := .none
  /-- The path as an import directive spells it. -/
  importPath : Option String := none
  /-- The name of the source that the import leads to. -/
  importedSource : Option String := none
  deriving DecidableEq, Repr, Inhabited

/-- A node of a syntax tree. -/
structure Node where
  label : NodeLabel
  children : List Node := []
  deriving Inhabited

namespace Node

/-- Where the node stands. -/
def location (n : Node) : SourceLocation := n.label.location

/-- The compiler's word for this sort of node. -/
def kind (n : Node) : String := n.label.kind

/-! ## Pre-order -/

mutual

/-- The nodes of a tree, each before its children. -/
def preorder : Node → List Node
  | n@⟨_, children⟩ => n :: preorderAll children

/-- The nodes of several trees, one tree after the other. -/
def preorderAll : List Node → List Node
  | [] => []
  | n :: rest => n.preorder ++ preorderAll rest

end

mutual

/-- The number of nodes. -/
def size : Node → Nat
  | ⟨_, children⟩ => 1 + sizeAll children

/-- The number of nodes of several trees. -/
def sizeAll : List Node → Nat
  | [] => 0
  | n :: rest => n.size + sizeAll rest

end

theorem size_eq (n : Node) : n.size = 1 + sizeAll n.children := by
  cases n
  rfl

@[simp] theorem sizeAll_append (l l' : List Node) :
    sizeAll (l ++ l') = sizeAll l + sizeAll l' := by
  induction l with
  | nil => simp [sizeAll]
  | cons n l ih => simp [sizeAll, ih, Nat.add_assoc]

@[simp] theorem sizeAll_reverse (l : List Node) : sizeAll l.reverse = sizeAll l := by
  induction l with
  | nil => rfl
  | cons n l ih => simp [sizeAll, ih, Nat.add_comm]

theorem preorder_eq (n : Node) : n.preorder = n :: preorderAll n.children := by
  cases n
  rfl

@[simp] theorem preorderAll_append (l l' : List Node) :
    preorderAll (l ++ l') = preorderAll l ++ preorderAll l' := by
  induction l with
  | nil => rfl
  | cons n l ih => simp [preorderAll, ih]

/-! ## Walking with a stack

The stack holds the trees that are still to be listed; its top is the head of the list. -/

/-- The nodes of the trees on a stack.  A node is taken from the top and its children are put in
its place. -/
def walkFrom : List Node → List Node
  | [] => []
  | n :: stack => n :: walkFrom (n.children ++ stack)
termination_by stack => sizeAll stack
decreasing_by simp [sizeAll, size_eq]

/-- The nodes of a tree in pre-order, by an explicit stack. -/
def walk (n : Node) : List Node := walkFrom [n]

end Node

end LanguageServer
