import LanguageServer.Toy.Binding

/-!
# The uses in a tree

The identifiers in the tree of a unit are the uses of names in it, in order; no other node refers
to anything.

## Main definitions

* `usesOf` — the uses that the identifiers of trees are.
* `Statement.uses`, `Item.uses`, `SourceFile.uses` — the uses in the constructs of the language.

## Main statements

* `SourceFile.usesOf_toUnit` — the identifiers of a unit are its uses.
-/

namespace LanguageServer

/-- Whether a node is an identifier, or refers to something all the same. -/
def Node.isUse (n : Node) : Bool := n.kind == "Identifier" || n.label.references.isSome

/-- The use that an identifier is. -/
def Node.use (n : Node) : Toy.Use :=
  ⟨⟨n.label.name.getD "", ⟨n.location.start.toNat, n.location.stop.toNat⟩⟩, n.label.references⟩

namespace Toy

/-- The uses that the identifiers of trees are, in the order of the trees. -/
def usesOf (l : List Node) : List Use := ((Node.preorderAll l).filter Node.isUse).map Node.use

/-! ## Trees -/

theorem usesOf_append (l l' : List Node) : usesOf (l ++ l') = usesOf l ++ usesOf l' := by
  simp [usesOf]

theorem usesOf_cons (n : Node) (l : List Node) : usesOf (n :: l) = usesOf [n] ++ usesOf l :=
  usesOf_append [n] l

/-- A node that is no identifier has the uses of its children. -/
theorem usesOf_over {n : Node} (h : n.isUse = false) : usesOf [n] = usesOf n.children := by
  simp [usesOf, Node.preorderAll, Node.preorder_eq, h]

theorem usesOf_toNode (source : String) (access : Access) (u : Use) :
    usesOf [u.toNode source access] = [u] := by
  rw [usesOf, Node.preorderAll, Node.preorder_eq]
  simp [Use.toNode, Node.preorderAll, Node.isUse, Node.kind, Node.use, Node.location, Span.within]

theorem mem_usesOf {u : Use} {n : Node} :
    u ∈ usesOf [n] ↔ ∃ m ∈ n.preorder, m.isUse = true ∧ m.use = u := by
  simp [usesOf, Node.preorderAll, and_assoc]

variable {source : String}

mutual

theorem Expr.usesOf_toNode : (e : Expr) → usesOf [e.toNode source] = e.uses
  | .number _ => rfl
  | .string _ => rfl
  | .use u => Toy.usesOf_toNode source .read u
  | .call callee arguments _ => by
    rw [Expr.toNode, usesOf_over rfl, usesOf_cons, Toy.usesOf_toNode,
      Expr.usesOf_toNodes arguments]
    rfl
  | .sum operands _ => by
    rw [Expr.toNode, usesOf_over rfl, Expr.usesOf_toNodes operands]
    rfl

theorem Expr.usesOf_toNodes : (l : List Expr) → usesOf (Expr.toNodes source l) = Expr.usesAll l
  | [] => rfl
  | e :: rest => by
    rw [Expr.toNodes, usesOf_cons, Expr.usesOf_toNode e, Expr.usesOf_toNodes rest]
    rfl

end

/-! ## The constructs of the language -/

/-- The uses in an expression that may be missing. -/
def Expr.usesIn (e : Option Expr) : List Use := (e.map Expr.uses).getD []

/-- The uses in a statement, from left to right. -/
def Statement.uses : Statement → List Use
  | .expression value _ => value.uses
  | .variable v => Expr.usesIn v.value
  | .assignment target value _ => target :: value.uses
  | .giveBack value _ => Expr.usesIn value

/-- The uses in an item, from left to right. -/
def Item.uses : Item → List Use
  | .importing _ _ _ => []
  | .function f => f.body.flatMap Statement.uses
  | .statement s => s.uses

/-- The uses in a unit, from left to right. -/
def SourceFile.uses (u : SourceFile) : List Use := u.items.flatMap Item.uses

theorem Expr.usesOf_toList (e : Option Expr) :
    usesOf (e.map (·.toNode source)).toList = Expr.usesIn e := by
  cases e with
  | none => rfl
  | some e => exact e.usesOf_toNode

theorem Statement.usesOf_toNode (s : Statement) : usesOf [s.toNode source] = s.uses := by
  cases s with
  | expression value span => exact (usesOf_over rfl).trans value.usesOf_toNode
  | «variable» v => exact (usesOf_over rfl).trans (Expr.usesOf_toList v.value)
  | assignment target value span =>
    rw [toNode, usesOf_over rfl, usesOf_cons, Toy.usesOf_toNode, value.usesOf_toNode]
    rfl
  | giveBack value span => exact (usesOf_over rfl).trans (Expr.usesOf_toList value)

/-- The uses in trees that are made one by one. -/
theorem usesOf_map {α : Type} {f : α → Node} {g : α → List Use} (h : ∀ a, usesOf [f a] = g a)
    (l : List α) : usesOf (l.map f) = l.flatMap g := by
  induction l with
  | nil => rfl
  | cons a rest ih => rw [List.map_cons, usesOf_cons, h, ih, List.flatMap_cons]

theorem Item.usesOf_toNode (i : Item) : usesOf [i.toNode source] = i.uses := by
  cases i with
  | importing path span target => rfl
  | statement s => exact s.usesOf_toNode
  | function f =>
    have hparameters : usesOf (f.parameters.map (·.toNode source)) = [] := by
      rw [usesOf_map (g := fun _ => []) fun p => rfl]
      simp
    rw [toNode, usesOf_over rfl, usesOf_append, hparameters, usesOf_map Statement.usesOf_toNode]
    rfl

/-- The identifiers of a unit are its uses. -/
theorem SourceFile.usesOf_toUnit (u : SourceFile) : usesOf [u.toUnit.root] = u.uses :=
  (usesOf_over rfl).trans (usesOf_map Item.usesOf_toNode u.items)

/-- An identifier of a unit is one of its uses. -/
theorem SourceFile.use_mem_uses {u : SourceFile} {m : Node} (hm : m ∈ u.toUnit.root.preorder)
    (huse : m.isUse = true) : m.use ∈ u.uses :=
  u.usesOf_toUnit ▸ mem_usesOf.2 ⟨m, hm, huse, rfl⟩

end Toy

end LanguageServer
