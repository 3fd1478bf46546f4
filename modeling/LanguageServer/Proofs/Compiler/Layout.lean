import LanguageServer.Compiler.Program
import Mathlib.Data.List.Pairwise

/-!
# How trees are laid out

A tree is laid out in a source if all its nodes lie there and the children of each node lie inside
it, one behind the other.  What the nodes refer to does not matter for this.

## Main definitions

* `Node.IsLaidOut` — a node lies in a source, and its children lie inside it in order.
* `Node.InLine` — trees stand one behind the other between two offsets.
* `Node.declared` — the handles that trees declare.
* `Node.bare` — a tree without what its nodes refer to.

## Main statements

* `Node.InLine.append` — what stands in line goes on with what stands behind it.
* `Node.isLaidOut_bare` — what the nodes refer to does not matter for how they are laid out.
-/

namespace LanguageServer.Node

variable {lo mid hi : Int} {l l' : List Node} {n : Node}

/-! ## Places -/

/-- A node lies in a source of some length, and its children lie inside it, one behind the other; none
of them is empty. -/
structure IsLaidOut (source : String) (length : Nat) (n : Node) : Prop where
  source : n.location.source = source
  start : 0 ≤ n.location.start
  ordered : n.location.start ≤ n.location.stop
  stop : n.location.stop ≤ length
  inside : ∀ child ∈ n.children,
    n.location.start ≤ child.location.start ∧ child.location.stop ≤ n.location.stop
  filled : ∀ child ∈ n.children, child.location.start < child.location.stop
  apart : n.children.Pairwise fun a b => a.location.stop ≤ b.location.start

/-- Trees stand one behind the other between two offsets, and none is empty. -/
inductive InLine : Int → Int → List Node → Prop
  | nil {lo hi : Int} (h : lo ≤ hi) : InLine lo hi []
  | cons {lo hi : Int} {n : Node} {rest : List Node} (hstart : lo ≤ n.location.start)
      (hspan : n.location.start < n.location.stop) (hrest : InLine n.location.stop hi rest) :
      InLine lo hi (n :: rest)

namespace InLine

theorem le (h : InLine lo hi l) : lo ≤ hi := by
  induction h with
  | nil h => exact h
  | cons hstart hspan _ ih => omega

theorem append (h : InLine lo mid l) (h' : InLine mid hi l') : InLine lo hi (l ++ l') := by
  induction h with
  | nil hle =>
    cases h' with
    | nil hle' => exact .nil (Int.le_trans hle hle')
    | cons hstart hspan hrest => exact .cons (Int.le_trans hle hstart) hspan hrest
  | cons hstart hspan _ ih => exact .cons hstart hspan (ih h')

/-- A tree between two offsets. -/
theorem single (hstart : lo ≤ n.location.start) (hspan : n.location.start < n.location.stop)
    (hstop : n.location.stop ≤ hi) : InLine lo hi [n] :=
  .cons hstart hspan (.nil hstop)

theorem widen {lo' hi' : Int} (h : InLine lo hi l) (hlo : lo' ≤ lo) (hhi : hi ≤ hi') :
    InLine lo' hi' l := by
  simpa using append (.nil hlo) (h.append (.nil hhi))

theorem of_mem (h : InLine lo hi l) (hn : n ∈ l) :
    lo ≤ n.location.start ∧ n.location.start < n.location.stop ∧ n.location.stop ≤ hi := by
  induction h with
  | nil _ => cases hn
  | cons hstart hspan hrest ih =>
    rcases List.mem_cons.1 hn with rfl | hn
    · exact ⟨hstart, hspan, hrest.le⟩
    · have := ih hn
      omega

theorem pairwise (h : InLine lo hi l) : l.Pairwise fun a b => a.location.stop ≤ b.location.start := by
  induction h with
  | nil _ => exact .nil
  | cons _ _ hrest ih => exact .cons (fun _ hm => (hrest.of_mem hm).1) ih

/-- Trees in line reach from the start of the first to the end of the last. -/
theorem tighten (h : InLine lo hi (n :: l)) :
    InLine n.location.start (l.getLastD n).location.stop (n :: l) := by
  induction l generalizing lo n with
  | nil =>
    cases h with
    | cons _ hspan _ => exact single (Int.le_refl _) hspan (Int.le_refl _)
  | cons m l ih =>
    cases h with
    | cons _ hspan hrest =>
      rw [List.getLastD_cons]
      have hfirst : n.location.stop ≤ m.location.start := (hrest.of_mem List.mem_cons_self).1
      exact .cons (Int.le_refl _) hspan ((ih hrest).widen hfirst (Int.le_refl _))

end InLine

/-- A node over trees in line is laid out. -/
theorem isLaidOut_of_inLine {source : String} {length : Nat} (hsource : n.location.source = source)
    (hstart : 0 ≤ n.location.start) (hstop : n.location.stop ≤ length)
    (h : InLine n.location.start n.location.stop n.children) : n.IsLaidOut source length where
  source := hsource
  start := hstart
  ordered := h.le
  stop := hstop
  inside _ hchild := ⟨(h.of_mem hchild).1, (h.of_mem hchild).2.2⟩
  filled _ hchild := (h.of_mem hchild).2.1
  apart := h.pairwise

/-! ## Handles -/

/-- The handles that trees declare, each node before its children. -/
def declared (l : List Node) : List Int := (preorderAll l).filterMap (·.label.declares)

theorem declared_append (l l' : List Node) : declared (l ++ l') = declared l ++ declared l' := by
  simp [declared]

theorem declared_singleton (n : Node) :
    declared [n] = n.label.declares.toList ++ declared n.children := by
  simp only [declared, preorderAll, List.append_nil, preorder_eq, List.filterMap_cons]
  cases n.label.declares <;> rfl

/-! ## What nodes refer to -/

end LanguageServer.Node

namespace LanguageServer

/-- The label without what it refers to. -/
def NodeLabel.bare (l : NodeLabel) : NodeLabel := { l with references := none, importedSource := none }

namespace Node

variable {l : List Node} {n : Node}

mutual

/-- The tree without what its nodes refer to. -/
def bare : Node → Node
  | ⟨label, children⟩ => ⟨label.bare, bareAll children⟩

/-- The trees without what their nodes refer to. -/
def bareAll : List Node → List Node
  | [] => []
  | n :: rest => n.bare :: bareAll rest

end

theorem bareAll_eq_map (l : List Node) : bareAll l = l.map bare := by
  induction l with
  | nil => rfl
  | cons n rest ih => rw [bareAll, ih, List.map_cons]

@[simp] theorem label_bare (n : Node) : n.bare.label = n.label.bare := by
  cases n
  rfl

@[simp] theorem location_bare (n : Node) : n.bare.location = n.location := by
  cases n
  rfl

@[simp] theorem children_bare (n : Node) : n.bare.children = n.children.map bare := by
  cases n
  exact bareAll_eq_map _

mutual

theorem preorder_bare : (n : Node) → n.bare.preorder = n.preorder.map bare
  | ⟨label, children⟩ => by
    rw [preorder_eq, preorder_eq, List.map_cons, ← preorderAll_bareAll children, children_bare,
      ← bareAll_eq_map]

theorem preorderAll_bareAll : (l : List Node) →
    preorderAll (bareAll l) = (preorderAll l).map bare
  | [] => rfl
  | n :: rest => by
    rw [bareAll, preorderAll, preorderAll, List.map_append, preorder_bare n,
      preorderAll_bareAll rest]

end

/-- What the nodes refer to does not matter for how they are laid out. -/
@[simp] theorem isLaidOut_bare {source : String} {length : Nat} :
    n.bare.IsLaidOut source length ↔ n.IsLaidOut source length := by
  constructor
  · intro h
    have hinside := h.inside
    have hfilled := h.filled
    have hapart := h.apart
    simp only [children_bare, List.forall_mem_map, List.pairwise_map, location_bare]
      at hinside hfilled hapart
    exact ⟨by simpa using h.source, by simpa using h.start, by simpa using h.ordered,
      by simpa using h.stop, hinside, hfilled, hapart⟩
  · intro h
    exact ⟨by simpa using h.source, by simpa using h.start, by simpa using h.ordered,
      by simpa using h.stop, by simpa using h.inside, by simpa using h.filled,
      by simpa [List.pairwise_map] using h.apart⟩

/-- The handles that are declared stay. -/
theorem declared_bareAll (l : List Node) : declared (bareAll l) = declared l := by
  rw [declared, preorderAll_bareAll, List.filterMap_map]
  exact congrArg (List.filterMap · _) (funext fun n => by simp [NodeLabel.bare])

end Node

end LanguageServer
