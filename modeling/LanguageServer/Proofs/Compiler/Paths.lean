import Mathlib.Data.List.Sort
import LanguageServer.Navigation
import LanguageServer.Proofs.Compiler.Walk
import LanguageServer.Workspace.Diagnostics

/-!
# The nodes of a tree, one by one

Two nodes of a tree may say the same, so a list of nodes does not tell which nodes a walk came by.
Paths do: a path says at each step to which child it goes on.  In the order of dictionaries the
path to a node stands before those to its children, and these stand from left to right.

The walk is a loop over a stack, whose top is its last tree.  At any time it is still to list the
trees on the stack, each in pre-order, from the top down.

## Main definitions

* `Node.at?` — the node at the end of a path.
* `Node.paths` — the paths of a tree.
* `Node.Visits` — a list holds each node of a tree once, in order.
* `Node.Walks` — the loop over a stack lists some nodes and ends.

## Main statements

* `Node.walks_iff` — what the loop lists, whatever is on its stack.
* `Node.pairwise_paths`, `Node.mem_paths_iff` — the paths of a tree are all there, in order.
* `Node.visits_iff` — the pre-order is the list that holds each node once, in order.
* `Node.walk_visits` — so is the walk, and what is read off it is read off each node once.
-/

namespace LanguageServer

namespace Node

/-! ## Paths -/

/-- The node at the end of a path; the children of a node are counted from zero. -/
def at? : Node → List Nat → Option Node
  | n, [] => some n
  | n, i :: path => n.children[i]?.bind (·.at? path)

/-- The node at the end of a path that begins with the choice of a tree. -/
def amongAt? (l : List Node) : List Nat → Option Node
  | [] => none
  | i :: path => l[i]?.bind (·.at? path)

/-- The path that begins one tree further on. -/
def onward : List Nat → List Nat
  | [] => []
  | i :: path => (i + 1) :: path

mutual

/-- The paths to the nodes of a tree. -/
def paths : Node → List (List Nat)
  | ⟨_, children⟩ => [] :: pathsAll children

/-- The paths to the nodes of several trees, which begin with the choice of one. -/
def pathsAll : List Node → List (List Nat)
  | [] => []
  | n :: rest => n.paths.map (0 :: ·) ++ (pathsAll rest).map onward

end

/-- The list holds each node of the tree once, parents before children and children from left to
right. -/
def Visits (root : Node) (l : List Node) : Prop :=
  ∃ paths : List (List Nat), paths.Pairwise (· < ·) ∧ (∀ p, p ∈ paths ↔ (root.at? p).isSome) ∧
    paths.map root.at? = l.map some

theorem amongAt?_onward (n : Node) (rest : List Node) (path : List Nat) :
    amongAt? (n :: rest) (onward path) = amongAt? rest path := by
  cases path <;> rfl

/-- Paths among trees begin with a choice. -/
theorem nil_notMem_pathsAll (l : List Node) : [] ∉ pathsAll l := by
  induction l with
  | nil => exact nofun
  | cons n rest ih =>
    rw [pathsAll, List.mem_append, List.mem_map, List.mem_map]
    rintro (⟨_, -, h⟩ | ⟨_ | ⟨i, path⟩, hp, h⟩)
    · cases h
    · exact ih hp
    · cases h

theorem map_at?_pathsAll (n : Node) :
    (pathsAll n.children).map n.at? = (pathsAll n.children).map (amongAt? n.children) := by
  refine List.map_congr_left fun p hp => ?_
  cases p with
  | nil => exact absurd hp (nil_notMem_pathsAll _)
  | cons i path => rfl

mutual

/-- The paths of a tree lead to its nodes in pre-order. -/
theorem map_at?_paths : (n : Node) → n.paths.map n.at? = n.preorder.map some
  | ⟨label, children⟩ => by
    rw [paths, preorder, List.map_cons, List.map_cons, ← map_amongAt?_pathsAll children]
    exact congrArg (_ :: ·) (map_at?_pathsAll ⟨label, children⟩)

theorem map_amongAt?_pathsAll :
    (l : List Node) → (pathsAll l).map (amongAt? l) = (preorderAll l).map some
  | [] => rfl
  | n :: rest => by
    have hfirst : amongAt? (n :: rest) ∘ (0 :: ·) = n.at? := rfl
    have hrest : amongAt? (n :: rest) ∘ onward = amongAt? rest := funext (amongAt?_onward n rest)
    rw [pathsAll, preorderAll, List.map_append, List.map_append, List.map_map, List.map_map, hfirst,
      hrest, map_at?_paths n, map_amongAt?_pathsAll rest]

end

theorem eq_cons_of_onward {p path : List Nat} {i : Nat} (h : onward p = i :: path) :
    ∃ j, i = j + 1 ∧ p = j :: path := by
  cases p with
  | nil => cases h
  | cons j p =>
    obtain ⟨rfl, rfl⟩ := List.cons.inj h
    exact ⟨j, rfl, rfl⟩

theorem onward_lt_onward {p q : List Nat} (hp : p ≠ []) (h : p < q) : onward p < onward q := by
  cases p with
  | nil => exact absurd rfl hp
  | cons i p =>
    cases q with
    | nil => cases h
    | cons j q =>
      rw [List.cons_lt_cons_iff] at h
      rw [onward, onward, List.cons_lt_cons_iff]
      exact h.imp Nat.succ_lt_succ (.imp_left (congrArg Nat.succ))

mutual

/-- The paths of a tree stand in the order of dictionaries. -/
theorem pairwise_paths : (n : Node) → n.paths.Pairwise (· < ·)
  | ⟨_, children⟩ => by
    rw [paths, List.pairwise_cons]
    refine ⟨fun p hp => ?_, pairwise_pathsAll children⟩
    cases p with
    | nil => exact absurd hp (nil_notMem_pathsAll _)
    | cons i path => exact List.nil_lt_cons i path

theorem pairwise_pathsAll : (l : List Node) → (pathsAll l).Pairwise (· < ·)
  | [] => .nil
  | n :: rest => by
    rw [pathsAll, List.pairwise_append, List.pairwise_map, List.pairwise_map]
    refine ⟨(pairwise_paths n).imp fun h => List.cons_lt_cons_iff.2 (.inr ⟨rfl, h⟩),
      (pairwise_pathsAll rest).imp_of_mem fun hp _ h =>
        onward_lt_onward (fun hnil => nil_notMem_pathsAll rest (hnil ▸ hp)) h, fun p hp q hq => ?_⟩
    obtain ⟨path, -, rfl⟩ := List.mem_map.1 hp
    obtain ⟨_ | ⟨i, path'⟩, hmem, rfl⟩ := List.mem_map.1 hq
    · exact absurd hmem (nil_notMem_pathsAll rest)
    · exact List.cons_lt_cons_iff.2 (.inl (Nat.zero_lt_succ i))

end

mutual

/-- The paths of a tree are those that end at a node. -/
theorem mem_paths_iff : (n : Node) → ∀ p, p ∈ n.paths ↔ (n.at? p).isSome
  | ⟨label, children⟩ => fun p => by
    rw [paths, List.mem_cons, mem_pathsAll_iff children]
    cases p with
    | nil => simp [at?]
    | cons i path => simp [at?, amongAt?]

theorem mem_pathsAll_iff : (l : List Node) → ∀ p, p ∈ pathsAll l ↔ (amongAt? l p).isSome
  | [] => fun p => by cases p <;> simp [pathsAll, amongAt?]
  | n :: rest => fun p => by
    match p with
    | [] => exact iff_of_false (nil_notMem_pathsAll (n :: rest)) nofun
    | 0 :: path =>
      rw [pathsAll, List.mem_append, List.mem_map, List.mem_map]
      refine Iff.trans ⟨?_, fun h => .inl ⟨path, h, rfl⟩⟩ (mem_paths_iff n path)
      rintro (⟨_, hp, h⟩ | ⟨_, -, h⟩)
      · exact (List.cons.inj h).2 ▸ hp
      · obtain ⟨j, hj, -⟩ := eq_cons_of_onward h
        cases hj
    | (i + 1) :: path =>
      rw [pathsAll, List.mem_append, List.mem_map, List.mem_map]
      refine Iff.trans ⟨?_, fun h => .inr ⟨i :: path, h, rfl⟩⟩ (mem_pathsAll_iff rest (i :: path))
      rintro (⟨_, -, h⟩ | ⟨_, hp, h⟩)
      · cases h
      · obtain ⟨j, hj, rfl⟩ := eq_cons_of_onward h
        exact Nat.succ.inj hj ▸ hp

end

/-- The pre-order holds each node once, and it is the only list that does so in order. -/
theorem visits_iff {n : Node} {l : List Node} : n.Visits l ↔ l = n.preorder := by
  constructor
  · rintro ⟨paths, hpairwise, hmem, hmap⟩
    have hpaths : paths = n.paths := hpairwise.eq_of_mem_iff n.pairwise_paths fun p =>
      (hmem p).trans (n.mem_paths_iff p).symm
    rw [hpaths, map_at?_paths] at hmap
    exact (List.map_injective_iff.2 (Option.some_injective Node) hmap).symm
  · rintro rfl
    exact ⟨n.paths, n.pairwise_paths, n.mem_paths_iff, n.map_at?_paths⟩

/-! ## The loop -/

/-- The loop over a stack of trees lists some nodes and ends: as long as there is a tree, the last
one is taken from the stack, and its children are put there, the first of them last. -/
inductive Walks : List Node → List Node → Prop
  | done : Walks [] []
  | turn {stack listed : List Node} {n : Node} (rest : Walks (stack ++ n.children.reverse) listed) :
    Walks (stack ++ [n]) (n :: listed)

/-- The loop lists the trees on its stack in pre-order, from the top down. -/
theorem preorderAll_of_walks {stack listed : List Node} (h : Walks stack listed) :
    listed = preorderAll stack.reverse := by
  induction h with
  | done => rfl
  | @turn stack listed n rest ih =>
    rw [ih, List.reverse_append, List.reverse_append, List.reverse_reverse, preorderAll_append,
      List.reverse_singleton, List.singleton_append, preorderAll, preorder_eq, List.cons_append]

/-- Whatever is on its stack, the loop ends. -/
theorem walks_preorderAll (stack : List Node) : Walks stack.reverse (preorderAll stack) := by
  induction stack using walkFrom.induct with
  | case1 => exact .done
  | case2 n stack ih =>
    rw [List.reverse_append, preorderAll_append] at ih
    rw [List.reverse_cons, preorderAll, preorder_eq, List.cons_append]
    exact .turn ih

/-- The loop ends, and what it lists are the trees on its stack in pre-order, from the top down. -/
theorem walks_iff {stack listed : List Node} :
    Walks stack listed ↔ listed = preorderAll stack.reverse := by
  refine ⟨preorderAll_of_walks, fun h => ?_⟩
  have hends := walks_preorderAll stack.reverse
  rwa [List.reverse_reverse, ← h] at hends

/-- The loop over the stack that holds a tree ends for every tree, and what it lists is the
pre-order of the tree: each node once, parents before children and children from left to right.  So
the imports of a unit, the occurrences in it and the imports that were not served are read off each
node once, in this order. -/
theorem walk_visits :
    (∀ root : Node,
      (∀ listed, Walks [root] listed ↔ listed = root.walk) ∧ root.walk = root.preorder ∧
        ∀ l, root.Visits l ↔ l = root.walk) ∧
    (∀ u : CompiledUnit, u.imports = u.root.preorder.filterMap (·.label.importedSource)) ∧
    (∀ (d : Declaration) (u : CompiledUnit), occurrences d u =
      (distinctPlaces [] ((u.root.preorder.filterMap (occurrenceAt? d)).filter
        (·.location.source == u.source))).mergeSort Occurrence.atMost) ∧
    ∀ (ws : Workspace) (program : Program), ws.importFailures program =
      program.units.values.flatMap fun u => u.root.preorder.filterMap
        (Workspace.nodeFailure? ws.readFailures (program.findings.filterMap (·.location))) := by
  refine ⟨fun root => ⟨fun listed => ?_, walk_eq_preorder root, fun l => ?_⟩, fun u => ?_,
    fun d u => ?_, fun ws program => ?_⟩
  · rw [walks_iff, walk_eq_preorder, List.reverse_singleton, preorderAll, preorderAll,
      List.append_nil]
  · rw [visits_iff, walk_eq_preorder]
  · rw [CompiledUnit.imports, walk_eq_preorder]
  · simp only [occurrences, walk_eq_preorder]
  · simp only [Workspace.importFailures, walk_eq_preorder]

end Node

end LanguageServer
