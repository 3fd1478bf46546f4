import LanguageServer.Proofs.Compiler.Walk
import LanguageServer.Proofs.Table
import LanguageServer.Toy.Engine
import LanguageServer.Workspace.Garbage

/-!
# What binding leaves alone

Binding finds out what the uses of names refer to.  It leaves alone what a unit imports
and what it declares at its top level; so the imports of a program are those of the units
that were gathered.

## Main definitions

* `SourceFile.outline` — the imports and the declarations of the items of a unit.

## Main statements

* `outline_bindUnits` — binding leaves the outlines alone.
* `importsOf_bindAll` — the imports of a program.
-/

namespace LanguageServer

namespace Toy

/-! ## Outlines -/

/-- What an item imports and what it declares. -/
def Item.outline (i : Item) : Option String × Option (Name × Int) := (i.source?, i.declares?)

/-- The name of a unit with the outlines of its items. -/
def SourceFile.outline (u : SourceFile) : String × List (Option String × Option (Name × Int)) :=
  (u.source, u.items.map Item.outline)

theorem SourceFile.imports_eq_outline (u : SourceFile) :
    u.imports = u.outline.2.filterMap (·.1) := by
  simp [imports, outline, List.filterMap_map, Function.comp_def, Item.outline]

theorem SourceFile.declarations_eq_outline (u : SourceFile) :
    u.declarations =
      u.outline.2.filterMap fun o => o.2.map fun d => declarationOf u.outline.1 d.1 d.2 := by
  simp [declarations, outline, List.filterMap_map, Function.comp_def, Item.outline]

theorem declares?_bindStatement (source : String) (scopes : Scopes) (c : Checker) (s : Statement) :
    (Item.statement (c.bindStatement source scopes s).2.2).declares? =
      (Item.statement s).declares? := by
  cases s with
  | «variable» v => cases v with | mk name typeName value span handle => cases value <;> rfl
  | _ => rfl

theorem outline_bindItem (source : String) (imported globals : Scope) (c : Checker) (i : Item) :
    (c.bindItem source imported globals i).2.outline = i.outline := by
  cases i with
  | importing path span target => rfl
  | function f => rfl
  | statement s => exact Prod.ext rfl (declares?_bindStatement source ⟨imported, globals, none⟩ c s)

theorem outline_bindItems (source : String) (imported globals : Scope) (c : Checker)
    (items : List Item) :
    (c.bindItems source imported globals items).2.map Item.outline = items.map Item.outline := by
  induction items generalizing c with
  | nil => rfl
  | cons i rest ih =>
    show (c.bindItem source imported globals i).2.outline ::
      ((c.bindItem source imported globals i).1.bindItems source imported globals rest).2.map
        Item.outline = _
    rw [outline_bindItem, ih, List.map_cons]

/-- Binding leaves the outline of a unit alone. -/
theorem SourceFile.outline_bind (units : Table String SourceFile) (u : SourceFile) (c : Checker) :
    (u.bind units c).2.outline = u.outline :=
  Prod.ext rfl (outline_bindItems _ _ _ _ _)

/-- Binding leaves the outlines of the units alone. -/
theorem outline_bindUnits (units : Table String SourceFile) (c : Checker) (names : List String)
    (n : String) :
    ((bindUnits units c names).2.find? n).map SourceFile.outline =
      (units.find? n).map SourceFile.outline := by
  induction names generalizing units c with
  | nil => rfl
  | cons name rest ih =>
    unfold bindUnits
    cases hu : units.find? name with
    | none => exact ih units c
    | some u =>
      show ((bindUnits (units.insert name (u.bind units c).2) (u.bind units c).1 rest).2.find? n).map
        SourceFile.outline = _
      rw [ih, Table.find?_insert]
      split
      · next heq => simp [← heq, hu, SourceFile.outline_bind]
      · rfl

/-! ## The tree that the server sees -/

theorem mem_preorderAll {m : Node} {l : List Node} :
    m ∈ Node.preorderAll l ↔ ∃ n ∈ l, m ∈ n.preorder := by
  induction l with
  | nil => simp [Node.preorderAll]
  | cons n rest ih => simp [Node.preorderAll, ih]

theorem mem_preorder {m n : Node} :
    m ∈ n.preorder ↔ m = n ∨ ∃ child ∈ n.children, m ∈ child.preorder := by
  rw [Node.preorder_eq, List.mem_cons, mem_preorderAll]

/-- A node in a source that has nothing to do with imports. -/
structure IsPlain (source : String) (n : Node) : Prop where
  source : n.location.source = source
  path : n.label.importPath = none
  target : n.label.importedSource = none

/-- The nodes of a tree in a source have nothing to do with imports. -/
def IsPlainTree (source : String) (n : Node) : Prop := ∀ m ∈ n.preorder, IsPlain source m

theorem isPlainTree_iff {source : String} {n : Node} :
    IsPlainTree source n ↔ IsPlain source n ∧ ∀ child ∈ n.children, IsPlainTree source child := by
  constructor
  · intro h
    exact ⟨h n (mem_preorder.2 (.inl rfl)), fun child hchild m hm =>
      h m (mem_preorder.2 (.inr ⟨child, hchild, hm⟩))⟩
  · rintro ⟨hn, hchildren⟩ m hm
    rcases mem_preorder.1 hm with rfl | ⟨child, hchild, hm⟩
    · exact hn
    · exact hchildren child hchild m hm

theorem isPlainTree_use (source : String) (access : Access) (u : Use) :
    IsPlainTree source (u.toNode source access) :=
  isPlainTree_iff.2 ⟨⟨rfl, rfl, rfl⟩, fun _ => nofun⟩

mutual

theorem isPlainTree_expr (source : String) : (e : Expr) → IsPlainTree source (e.toNode source)
  | .number _ => isPlainTree_iff.2 ⟨⟨rfl, rfl, rfl⟩, fun _ => nofun⟩
  | .string _ => isPlainTree_iff.2 ⟨⟨rfl, rfl, rfl⟩, fun _ => nofun⟩
  | .use u => isPlainTree_use source .read u
  | .call callee arguments _ => by
    refine isPlainTree_iff.2 ⟨⟨rfl, rfl, rfl⟩, fun child hchild => ?_⟩
    rcases List.mem_cons.1 hchild with rfl | hchild
    · exact isPlainTree_use source .read callee
    · exact isPlainTree_exprs source arguments child hchild
  | .sum operands _ =>
    isPlainTree_iff.2 ⟨⟨rfl, rfl, rfl⟩, isPlainTree_exprs source operands⟩

theorem isPlainTree_exprs (source : String) : (l : List Expr) →
    ∀ n ∈ Expr.toNodes source l, IsPlainTree source n
  | [] => fun _ => nofun
  | e :: rest => fun n hn => by
    rcases List.mem_cons.1 hn with rfl | hn
    · exact isPlainTree_expr source e
    · exact isPlainTree_exprs source rest n hn

end

theorem isPlainTree_statement (source : String) (s : Statement) :
    IsPlainTree source (s.toNode source) := by
  have hvalue (e : Option Expr) (n : Node) (hn : n ∈ (e.map (·.toNode source)).toList) :
      IsPlainTree source n := by
    obtain ⟨e, -, rfl⟩ := Option.map_eq_some_iff.1 (Option.mem_toList.1 hn)
    exact isPlainTree_expr source e
  cases s with
  | expression value span =>
    refine isPlainTree_iff.2 ⟨⟨rfl, rfl, rfl⟩, fun n hn => ?_⟩
    obtain rfl := List.mem_singleton.1 hn
    exact isPlainTree_expr source value
  | «variable» v => exact isPlainTree_iff.2 ⟨⟨rfl, rfl, rfl⟩, hvalue v.value⟩
  | assignment target value span =>
    refine isPlainTree_iff.2 ⟨⟨rfl, rfl, rfl⟩, fun n hn => ?_⟩
    rcases List.mem_cons.1 hn with rfl | hn
    · exact isPlainTree_use source .write target
    · obtain rfl := List.mem_singleton.1 hn
      exact isPlainTree_expr source value
  | giveBack value span => exact isPlainTree_iff.2 ⟨⟨rfl, rfl, rfl⟩, hvalue value⟩

theorem isPlainTree_function (source : String) (f : Function) :
    IsPlainTree source ((Item.function f).toNode source) := by
  refine isPlainTree_iff.2 ⟨⟨rfl, rfl, rfl⟩, fun n hn => ?_⟩
  rcases List.mem_append.1 hn with hn | hn
  · obtain ⟨p, -, rfl⟩ := List.mem_map.1 hn
    exact isPlainTree_iff.2 ⟨⟨rfl, rfl, rfl⟩, fun _ => nofun⟩
  · obtain ⟨s, -, rfl⟩ := List.mem_map.1 hn
    exact isPlainTree_statement source s

/-- The nodes of a unit lie in its source, and have nothing to do with imports, but for those of the
directives that import. -/
theorem SourceFile.mem_preorder_toUnit {u : SourceFile} {m : Node}
    (hm : m ∈ u.toUnit.root.preorder) :
    IsPlain u.source m ∨ ∃ path span target, .importing path span target ∈ u.items ∧
      m = (Item.importing path span target).toNode u.source := by
  rcases mem_preorder.1 hm with rfl | ⟨child, hchild, hm⟩
  · exact .inl ⟨rfl, rfl, rfl⟩
  · obtain ⟨i, hi, rfl⟩ := List.mem_map.1 hchild
    cases i with
    | importing path span target =>
      rcases mem_preorder.1 hm with rfl | ⟨_, hnone, -⟩
      · exact .inr ⟨path, span, target, hi, rfl⟩
      · cases hnone
    | function f => exact .inl (isPlainTree_function u.source f m hm)
    | statement s => exact .inl (isPlainTree_statement u.source s m hm)

/-- The nodes that spell a path are those of the directives that import it. -/
theorem SourceFile.exists_importing_of_mem_preorder {u : SourceFile} {m : Node} {path : String}
    (hm : m ∈ u.toUnit.root.preorder) (hpath : m.label.importPath = some path) :
    ∃ span target, .importing path span target ∈ u.items ∧
      m = (Item.importing path span target).toNode u.source := by
  rcases SourceFile.mem_preorder_toUnit hm with hplain | ⟨path', span, target, hitem, rfl⟩
  · rw [hplain.path] at hpath
    cases hpath
  · obtain rfl : path' = path := Option.some.inj hpath
    exact ⟨span, target, hitem, rfl⟩

/-- What is never found at a node that has nothing to do with imports is found at the items of a unit
only. -/
theorem SourceFile.filterMap_preorder_toUnit {α : Type} {f : Node → Option α} (u : SourceFile)
    (hplain : ∀ n, IsPlain u.source n → f n = none) :
    u.toUnit.root.preorder.filterMap f = u.items.filterMap fun i => f (i.toNode u.source) := by
  have hnone {n : Node} (h : IsPlainTree u.source n) :
      n.preorder.filterMap f = (f n).toList := by
    rw [hplain n (h n (mem_preorder.2 (.inl rfl)))]
    exact List.filterMap_eq_nil_iff.2 fun m hm => hplain m (h m hm)
  have hitem (i : Item) :
      (i.toNode u.source).preorder.filterMap f = (f (i.toNode u.source)).toList := by
    cases i with
    | importing path span target => exact List.filterMap_cons
    | function g => exact hnone (isPlainTree_function u.source g)
    | statement s => exact hnone (isPlainTree_statement u.source s)
  have hitems (l : List Item) : (Node.preorderAll (l.map (·.toNode u.source))).filterMap f =
      l.filterMap fun i => f (i.toNode u.source) := by
    induction l with
    | nil => rfl
    | cons i rest ih =>
      rw [List.map_cons, Node.preorderAll, List.filterMap_append, hitem, ih, List.filterMap_cons]
      cases f (i.toNode u.source) <;> rfl
  rw [Node.preorder_eq, List.filterMap_cons, hplain u.toUnit.root ⟨rfl, rfl, rfl⟩]
  exact hitems u.items

theorem Item.importedSource_toNode (source : String) (i : Item) :
    (i.toNode source).label.importedSource = i.source? := by
  cases i with
  | statement s => cases s <;> rfl
  | _ => rfl

/-- The server sees the imports of a unit. -/
theorem SourceFile.imports_toUnit (u : SourceFile) : u.toUnit.imports = u.imports := by
  unfold CompiledUnit.imports
  rw [Node.walk_eq_preorder, u.filterMap_preorder_toUnit fun _ hplain => hplain.target]
  simp only [Item.importedSource_toNode]
  rfl

/-! ## The imports of a program -/

/-- The imports of a program are those of the units that were gathered. -/
theorem importsOf_bindAll (g : Gathering) (n : String) :
    (Workspace.importGraph (bindAll g)).importsOf n =
      ((g.units.find? n).map SourceFile.imports).getD [] := by
  have hkept := outline_bindUnits g.units ⟨.empty, g.draft.findings⟩ (Text.sorted g.units.keys) n
  unfold ImportGraph.importsOf Workspace.importGraph bindAll
  simp only [Table.find?_mapValues]
  cases hg : g.units.find? n with
  | none =>
    rw [hg] at hkept
    simp [Option.map_eq_none_iff.1 hkept]
  | some u =>
    rw [hg] at hkept
    obtain ⟨u', hu', houtline⟩ := Option.map_eq_some_iff.1 hkept
    simp [hu', SourceFile.imports_toUnit, SourceFile.imports_eq_outline, houtline]

end Toy

end LanguageServer
