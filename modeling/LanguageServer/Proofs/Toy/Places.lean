import LanguageServer.Proofs.Compiler.Layout
import LanguageServer.Proofs.Toy.Outline
import LanguageServer.Proofs.Toy.Uses

/-!
# Where identifiers stand

In a tree that is laid out, nodes lie inside the nodes over them.  Identifiers bear names and have no
children, so they stand one behind the other, and each has a place of its own.

## Main definitions

* `Node.Encloses` — a node that is not empty lies inside another.
* `Node.HasLeafUses` — the identifiers in a tree bear names and have no children.
* `IsSorted` — the sorts of nodes.

## Main statements

* `encloses_of_mem` — the nodes of a tree lie inside it.
* `nodup_locations` — no two identifiers stand in one place.
* `SourceFile.isSortedTree` — what the nodes of a unit are.
-/

namespace LanguageServer

/-- A node that is not empty lies inside another. -/
structure Node.Encloses (n m : Node) : Prop where
  start : n.location.start ≤ m.location.start
  filled : m.location.start < m.location.stop
  stop : m.location.stop ≤ n.location.stop

/-- A node bears a name and has no children. -/
structure Node.IsNamedLeaf (n : Node) : Prop where
  name : n.label.name = some n.use.name.text
  children : n.children = []

/-- The identifiers in a tree bear names and have no children. -/
def Node.HasLeafUses (n : Node) : Prop := ∀ m ∈ n.preorder, m.isUse = true → m.IsNamedLeaf

/-- The place of a use is that of its node. -/
theorem Node.IsLaidOut.location_use {source : String} {length : Nat} {n : Node}
    (h : n.IsLaidOut source length) : n.use.name.span.within source = n.location := by
  have hstop := Int.le_trans h.start h.ordered
  simp only [Node.use, Toy.Span.within, Int.toNat_of_nonneg h.start, Int.toNat_of_nonneg hstop,
    ← h.source]

namespace Toy

variable {source : String} {length : Nat}

/-! ## Nodes inside nodes -/

mutual

/-- The nodes of a tree lie inside it. -/
theorem encloses_of_mem : (n : Node) → n.location.start < n.location.stop →
    (∀ k ∈ n.preorder, k.IsLaidOut source length) → ∀ m ∈ n.preorder, n.Encloses m
  | ⟨label, children⟩, hfilled, h, m, hm => by
    rcases mem_preorder.1 hm with rfl | ⟨child, hchild, hm⟩
    · exact ⟨Int.le_refl _, hfilled, Int.le_refl _⟩
    · have hself := h ⟨label, children⟩ (mem_preorder.2 (.inl rfl))
      have hinside := hself.inside child hchild
      have hencloses := encloses_of_memAll children hself.filled
        (fun k hk => h k (by simp [Node.preorder_eq, hk])) child hchild m hm
      exact ⟨Int.le_trans hinside.1 hencloses.start, hencloses.filled,
        Int.le_trans hencloses.stop hinside.2⟩

theorem encloses_of_memAll : (l : List Node) → (∀ n ∈ l, n.location.start < n.location.stop) →
    (∀ k ∈ Node.preorderAll l, k.IsLaidOut source length) →
    ∀ n ∈ l, ∀ m ∈ n.preorder, n.Encloses m
  | [], _, _ => fun _ => nofun
  | n :: rest, hfilled, h => List.forall_mem_cons.2
    ⟨encloses_of_mem n (hfilled n List.mem_cons_self) fun k hk => h k (List.mem_append_left _ hk),
      encloses_of_memAll rest (fun k hk => hfilled k (List.mem_cons_of_mem _ hk))
        fun k hk => h k (List.mem_append_right _ hk)⟩

end

/-! ## Identifiers one behind the other -/

mutual

theorem pairwise_uses : (n : Node) → n.location.start < n.location.stop →
    (∀ k ∈ n.preorder, k.IsLaidOut source length) → n.HasLeafUses →
    (n.preorder.filter Node.isUse).Pairwise fun a b => a.location.stop ≤ b.location.start
  | ⟨label, children⟩, hfilled, h, hleaf => by
    have hself := mem_preorder.2 (.inl (rfl : (⟨label, children⟩ : Node) = ⟨label, children⟩))
    rw [Node.preorder_eq, List.filter_cons]
    split
    · next huse =>
      rw [(hleaf _ hself huse).children]
      exact List.pairwise_singleton ..
    · exact pairwise_usesAll children (h _ hself).filled (h _ hself).apart
        (fun k hk => h k (by simp [Node.preorder_eq, hk]))
        fun n hn m hm => hleaf m (mem_preorder.2 (.inr ⟨n, hn, hm⟩))

/-- The identifiers in trees one behind the other stand one behind the other. -/
theorem pairwise_usesAll : (l : List Node) → (∀ n ∈ l, n.location.start < n.location.stop) →
    (l.Pairwise fun a b => a.location.stop ≤ b.location.start) →
    (∀ k ∈ Node.preorderAll l, k.IsLaidOut source length) → (∀ n ∈ l, n.HasLeafUses) →
    ((Node.preorderAll l).filter Node.isUse).Pairwise fun a b => a.location.stop ≤ b.location.start
  | [], _, _, _, _ => .nil
  | n :: rest, hfilled, hapart, h, hleaf => by
    obtain ⟨hfirst, hrest⟩ := List.pairwise_cons.1 hapart
    have hmore := fun k hk => hfilled k (List.mem_cons_of_mem n hk)
    have hbehind := fun k hk => h k (List.mem_append_right n.preorder hk)
    rw [Node.preorderAll, List.filter_append, List.pairwise_append]
    refine ⟨pairwise_uses n (hfilled n List.mem_cons_self)
      (fun k hk => h k (List.mem_append_left _ hk)) (hleaf n List.mem_cons_self),
      pairwise_usesAll rest hmore hrest hbehind fun k hk => hleaf k (List.mem_cons_of_mem _ hk),
      fun a ha b hb => ?_⟩
    have hinside := encloses_of_mem n (hfilled n List.mem_cons_self)
      (fun k hk => h k (List.mem_append_left _ hk)) a (List.mem_filter.1 ha).1
    obtain ⟨k, hk, hb⟩ := mem_preorderAll.1 (List.mem_filter.1 hb).1
    have hother := encloses_of_memAll rest hmore hbehind k hk b hb
    exact Int.le_trans hinside.stop (Int.le_trans (hfirst k hk) hother.start)

end

/-- No two identifiers under a root stand in one place. -/
theorem nodup_locations {root : Node} (huse : root.isUse = false)
    (h : ∀ k ∈ root.preorder, k.IsLaidOut source length) (hleaf : root.HasLeafUses) :
    ((root.preorder.filter Node.isUse).map (·.location)).Nodup := by
  have hself := h root (mem_preorder.2 (.inl rfl))
  have hbelow : ∀ k ∈ Node.preorderAll root.children, k.IsLaidOut source length :=
    fun k hk => h k (by simp [Node.preorder_eq, hk])
  rw [Node.preorder_eq, List.filter_cons, if_neg (by simp [huse]), List.Nodup, List.pairwise_map]
  refine (pairwise_usesAll root.children hself.filled hself.apart hbelow fun n hn m hm =>
    hleaf m (mem_preorder.2 (.inr ⟨n, hn, hm⟩))).imp_of_mem fun {a b} ha _ hbehind heq => ?_
  obtain ⟨k, hk, ha⟩ := mem_preorderAll.1 (List.mem_filter.1 ha).1
  have hfilled := (encloses_of_memAll _ hself.filled hbelow k hk a ha).filled
  rw [heq] at hfilled hbehind
  omega

/-! ## Sorts of nodes -/

/-- The nodes of a unit: identifiers, import directives, and others, which refer to nothing. -/
inductive IsSorted (source : String) : Node → Prop
  | use (access : Access) (u : Use) : IsSorted source (u.toNode source access)
  | directive (path : String) (span : Span) (target : Option String) :
      IsSorted source ((Item.importing path span target).toNode source)
  | other {n : Node} (huse : n.kind ≠ "Identifier") (hdirective : n.kind ≠ "ImportDirective")
      (hreferences : n.label.references = none) : IsSorted source n

/-- The nodes of a tree are of these sorts. -/
def IsSortedTree (source : String) (n : Node) : Prop := ∀ m ∈ n.preorder, IsSorted source m

theorem isSortedTree_over {n : Node} (hn : IsSorted source n)
    (h : ∀ child ∈ n.children, IsSortedTree source child) : IsSortedTree source n := by
  intro m hm
  rcases mem_preorder.1 hm with rfl | ⟨child, hchild, hm⟩
  · exact hn
  · exact h child hchild m hm

/-- A node of another kind stands over nodes of these sorts. -/
theorem isSortedTree_other {n : Node} (kind : String) (hkind : n.kind = kind)
    (hother : kind ≠ "Identifier" ∧ kind ≠ "ImportDirective") (hreferences : n.label.references = none)
    (h : ∀ child ∈ n.children, IsSortedTree source child) : IsSortedTree source n :=
  isSortedTree_over (.other (hkind ▸ hother.1) (hkind ▸ hother.2) hreferences) h

theorem isSortedTree_use (access : Access) (u : Use) : IsSortedTree source (u.toNode source access) :=
  isSortedTree_over (.use access u) fun _ => nofun

mutual

theorem Expr.isSortedTree : (e : Expr) → IsSortedTree source (e.toNode source)
  | .number _ => isSortedTree_other "NumberLiteral" rfl (by decide) rfl fun _ => nofun
  | .string _ => isSortedTree_other "StringLiteral" rfl (by decide) rfl fun _ => nofun
  | .use u => isSortedTree_use .read u
  | .call callee arguments _ => isSortedTree_other "FunctionCall" rfl (by decide) rfl
      (List.forall_mem_cons.2 ⟨isSortedTree_use .read callee, Expr.isSortedTree_all arguments⟩)
  | .sum operands _ =>
    isSortedTree_other "BinaryOperation" rfl (by decide) rfl (Expr.isSortedTree_all operands)

theorem Expr.isSortedTree_all : (l : List Expr) →
    ∀ n ∈ Expr.toNodes source l, IsSortedTree source n
  | [] => fun _ => nofun
  | e :: rest => List.forall_mem_cons.2 ⟨Expr.isSortedTree e, Expr.isSortedTree_all rest⟩

end

theorem Statement.isSortedTree (s : Statement) : IsSortedTree source (s.toNode source) := by
  have hvalue (e : Option Expr) : ∀ n ∈ (e.map (·.toNode source)).toList, IsSortedTree source n := by
    intro n hn
    obtain ⟨e, -, rfl⟩ := Option.map_eq_some_iff.1 (Option.mem_toList.1 hn)
    exact e.isSortedTree
  cases s with
  | expression value span =>
    refine isSortedTree_other "ExpressionStatement" rfl (by decide) rfl fun n hn => ?_
    exact List.mem_singleton.1 hn ▸ value.isSortedTree
  | «variable» v => exact isSortedTree_other "VariableDeclaration" rfl (by decide) rfl (hvalue v.value)
  | assignment target value span =>
    refine isSortedTree_other "Assignment" rfl (by decide) rfl
      (List.forall_mem_cons.2 ⟨isSortedTree_use .write target, fun n hn => ?_⟩)
    exact List.mem_singleton.1 hn ▸ value.isSortedTree
  | giveBack value span =>
    exact isSortedTree_other "Return" rfl (by decide) rfl (hvalue value)

theorem Item.isSortedTree (i : Item) : IsSortedTree source (i.toNode source) := by
  cases i with
  | importing path span target => exact isSortedTree_over (.directive path span target) fun _ => nofun
  | statement s => exact s.isSortedTree
  | function f =>
    refine isSortedTree_other "FunctionDefinition" rfl (by decide) rfl
      (List.forall_mem_append.2 ⟨?_, ?_⟩)
    · exact List.forall_mem_map.2 fun p _ =>
        isSortedTree_other "Parameter" rfl (by decide) rfl fun _ => nofun
    · exact List.forall_mem_map.2 fun s _ => s.isSortedTree

/-- The nodes of a unit are of these sorts. -/
theorem SourceFile.isSortedTree (u : SourceFile) : IsSortedTree u.source u.toUnit.root :=
  isSortedTree_other "SourceUnit" rfl (by decide) rfl
    (List.forall_mem_map.2 fun i _ => i.isSortedTree)

/-- Only identifiers refer to something, and they bear names and have no children. -/
theorem IsSorted.isNamedLeaf {n : Node} (h : IsSorted source n) (huse : n.isUse = true) :
    n.kind = "Identifier" ∧ n.IsNamedLeaf := by
  cases h with
  | use access u => exact ⟨rfl, rfl, rfl⟩
  | directive path span target => simp [Node.isUse, Node.kind, Item.toNode] at huse
  | other hnouse hdirective hreferences => simp [Node.isUse, hnouse, hreferences] at huse

/-- What declares something refers to nothing. -/
theorem IsSorted.references_eq_none {n : Node} (h : IsSorted source n) {handle : Int}
    (hdeclares : n.label.declares = some handle) : n.label.references = none := by
  cases h with
  | use access u => simp [Use.toNode] at hdeclares
  | directive path span target => rfl
  | other hnouse hdirective hreferences => exact hreferences

/-- The identifiers in an item bear names and have no children. -/
theorem Item.hasLeafUses (i : Item) : (i.toNode source).HasLeafUses :=
  fun m hm huse => ((i.isSortedTree m hm).isNamedLeaf huse).2

/-- The identifiers in a unit bear names and have no children. -/
theorem SourceFile.hasLeafUses (u : SourceFile) : u.toUnit.root.HasLeafUses :=
  fun m hm huse => ((u.isSortedTree m hm).isNamedLeaf huse).2

/-- An import directive bears the path that it spells. -/
theorem IsSorted.importPath {n : Node} (h : IsSorted source n) (hkind : n.kind = "ImportDirective") :
    ∃ path, n.label.importPath = some path := by
  cases h with
  | use access u => simp [Node.kind, Use.toNode] at hkind
  | directive path span target => exact ⟨path, rfl⟩
  | other hnouse hdirective hreferences => exact absurd hkind hdirective

end Toy

end LanguageServer
