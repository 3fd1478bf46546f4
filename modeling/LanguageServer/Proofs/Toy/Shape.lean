import LanguageServer.Proofs.Compiler.Layout
import LanguageServer.Proofs.Table
import LanguageServer.Toy.Engine

/-!
# The shape of bound units

Resolving imports and binding fill in what nodes refer to.  The rest of a tree, its shape, is
settled when the unit is read.

## Main statements

* `SourceFile.bare_resolved` — resolving imports leaves the shape alone.
* `SourceFile.bare_bind`, `bare_bindUnits` — so does binding.
-/

namespace LanguageServer.Toy

variable {source : String} {f : Use → Use}

theorem Use.bare_toNode {u u' : Use} (h : u'.name = u.name) (access : Access) :
    (u'.toNode source access).bare = (u.toNode source access).bare := by
  simp [Use.toNode, Node.bare, NodeLabel.bare, h]

mutual

theorem Expr.bare_mapUses (hf : ∀ u, (f u).name = u.name) : (e : Expr) →
    ((e.mapUses f).toNode source).bare = (e.toNode source).bare
  | .number _ => rfl
  | .string _ => rfl
  | .use u => Use.bare_toNode (hf u) .read
  | .call callee arguments _ => by
    rw [Expr.mapUses, Expr.toNode, Expr.toNode, Node.bare, Node.bare, Node.bareAll, Node.bareAll,
      Use.bare_toNode (hf callee) .read, Expr.bareAll_mapUsesAll hf arguments]
  | .sum operands _ => by
    rw [Expr.mapUses, Expr.toNode, Expr.toNode, Node.bare, Node.bare,
      Expr.bareAll_mapUsesAll hf operands]

theorem Expr.bareAll_mapUsesAll (hf : ∀ u, (f u).name = u.name) : (l : List Expr) →
    Node.bareAll (Expr.toNodes source (Expr.mapUsesAll f l)) =
      Node.bareAll (Expr.toNodes source l)
  | [] => rfl
  | e :: rest => by
    rw [Expr.mapUsesAll, Expr.toNodes, Expr.toNodes, Node.bareAll, Node.bareAll,
      Expr.bare_mapUses hf e, Expr.bareAll_mapUsesAll hf rest]

end

namespace Checker

variable (scopes : Scopes) (c : Checker)

theorem bare_bindExpr (e : Expr) :
    ((c.bindExpr source scopes e).2.toNode source).bare = (e.toNode source).bare :=
  Expr.bare_mapUses (f := scopes.resolve) (fun _ => rfl) e

theorem bareAll_bindExpr? (e : Option Expr) :
    Node.bareAll ((c.bindExpr? source scopes e).2.map (·.toNode source)).toList =
      Node.bareAll (e.map (·.toNode source)).toList := by
  cases e with
  | none => rfl
  | some e => exact congrArg (fun n => [n]) (bare_bindExpr scopes c e)

theorem bare_bindStatement (s : Statement) :
    ((c.bindStatement source scopes s).2.2.toNode source).bare = (s.toNode source).bare := by
  cases s with
  | expression value span =>
    simp only [bindStatement, Statement.toNode, Node.bare, Node.bareAll, bare_bindExpr]
  | «variable» v => simp only [bindStatement, Statement.toNode, Node.bare, bareAll_bindExpr?]
  | assignment target value span =>
    simp only [bindStatement, Statement.toNode, Node.bare, Node.bareAll, bare_bindExpr]
    rfl
  | giveBack value span => simp only [bindStatement, Statement.toNode, Node.bare, bareAll_bindExpr?]

theorem bare_bindStatements (l : List Statement) :
    (c.bindStatements source scopes l).2.map (fun s => (s.toNode source).bare) =
      l.map fun s => (s.toNode source).bare := by
  induction l generalizing scopes c with
  | nil => rfl
  | cons s rest ih =>
    exact congrArg₂ List.cons (bare_bindStatement scopes c s) (ih _ _)

theorem bare_bindItem (imported globals : Scope) (i : Item) :
    ((c.bindItem source imported globals i).2.toNode source).bare = (i.toNode source).bare := by
  cases i with
  | importing path span target => rfl
  | statement s => exact bare_bindStatement ⟨imported, globals, none⟩ c s
  | function f =>
    simp only [bindItem, Item.toNode, Node.bare, Node.bareAll_eq_map, List.map_append, List.map_map]
    refine congrArg (Node.mk _) (congrArg _ ?_)
    exact bare_bindStatements _ _ f.body

theorem bare_bindItems (imported globals : Scope) (l : List Item) :
    (c.bindItems source imported globals l).2.map (fun i => (i.toNode source).bare) =
      l.map fun i => (i.toNode source).bare := by
  induction l generalizing c with
  | nil => rfl
  | cons i rest ih => exact congrArg₂ List.cons (bare_bindItem c imported globals i) (ih _)

end Checker

theorem SourceFile.bare_toUnit (u : SourceFile) : u.toUnit.root.bare =
    ⟨(u.toUnit.root.label).bare, u.items.map fun i => (i.toNode u.source).bare⟩ := by
  simp only [toUnit, Node.bare, Node.bareAll_eq_map, List.map_map]
  rfl

/-- Binding a unit leaves its shape alone. -/
theorem SourceFile.bare_bind (units : Table String SourceFile) (u : SourceFile) (c : Checker) :
    (u.bind units c).2.toUnit.root.bare = u.toUnit.root.bare := by
  rw [bare_toUnit, bare_toUnit]
  exact congrArg (Node.mk _) (Checker.bare_bindItems _ _ _ u.items)

/-- Binding units leaves their shapes alone, and their order. -/
theorem bare_bindUnits (units : Table String SourceFile) (c : Checker) (names : List String) :
    (bindUnits units c names).2.mapValues (fun _ u => u.toUnit.root.bare) =
      units.mapValues fun _ u => u.toUnit.root.bare := by
  induction names generalizing units c with
  | nil => rfl
  | cons name rest ih =>
    unfold bindUnits
    cases hu : units.find? name with
    | none => exact ih units c
    | some u => exact (ih _ _).trans (Table.mapValues_insert_of_find? hu (u.bare_bind units c))

/-- Resolving the imports of a unit leaves its shape alone. -/
theorem SourceFile.bare_resolved (rules : List Remapping) (u : SourceFile) :
    (u.resolved rules).toUnit.root.bare = u.toUnit.root.bare := by
  rw [bare_toUnit, bare_toUnit]
  refine congrArg (Node.mk _) ?_
  simp only [resolved, List.map_map]
  refine List.map_congr_left fun i _ => ?_
  cases i <;> rfl

end LanguageServer.Toy
