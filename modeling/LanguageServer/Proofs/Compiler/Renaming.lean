import LanguageServer.Navigation
import LanguageServer.Proofs.Compiler.Walk
import Mathlib.Data.List.Basic

/-!
# Programs with other handles

Handles tell declarations apart and mean nothing else.  Two programs mirror each other on
some sources if the trees of these are the same but for the handles, with the same
findings; then a place in one of these sources leads to the same declaration in both, and
that occurs at the same places.

## Main definitions

* `Renaming` — other handles for what some sources declare.
* `Node.rename`, `CompiledUnit.rename` — a tree with other handles.
* `Program.IsFormed` — trees and findings lie in the sources of a program.
* `Program.Mirrors` — two programs are the same on some sources, but for the handles.

## Main statements

* `innermost_rename` — the same node is found at a place.
* `Program.Mirrors.declarationOf?`, `occurrences_rename` — the same declarations and occurrences.
-/

namespace LanguageServer

/-- Whether a finding lies in a source. -/
def Finding.liesIn (f : Finding) (source : String) : Bool :=
  f.location.any (·.source = source)

/-- Other handles for what some sources declare.  Different declarations keep different handles. -/
structure Renaming where
  /-- The other handle. -/
  handle : Int → Int
  /-- The handles that are given in the sources. -/
  Covers : Int → Prop
  /-- The sources. -/
  Near : String → Prop
  injective : ∀ {h h'}, Covers h → Covers h' → handle h = handle h' → h = h'

namespace Renaming

/-- The declaration with its other handle. -/
def declaration (r : Renaming) (d : Declaration) : Declaration := { d with handle := r.handle d.handle }

/-- A declaration in one of the sources. -/
structure Knows (r : Renaming) (d : Declaration) : Prop where
  covers : r.Covers d.handle
  near : r.Near d.location.source

/-- A finding in a source that points only to places in the sources of the renaming. -/
structure Concerns (r : Renaming) (source : String) (f : Finding) : Prop where
  lies : f.liesIn source = true
  near : ∀ p ∈ f.related, r.Near p.location.source

end Renaming

/-! ## Trees -/

/-- The label with other handles. -/
def NodeLabel.rename (ρ : Int → Int) (l : NodeLabel) : NodeLabel :=
  { l with declares := l.declares.map ρ, references := l.references.map ρ }

namespace Node

mutual

/-- The tree with other handles. -/
def rename (ρ : Int → Int) : Node → Node
  | ⟨label, children⟩ => ⟨label.rename ρ, renameAll ρ children⟩

/-- The trees with other handles. -/
def renameAll (ρ : Int → Int) : List Node → List Node
  | [] => []
  | n :: rest => n.rename ρ :: renameAll ρ rest

end

variable {ρ : Int → Int}

theorem rename_eq (n : Node) : n.rename ρ = ⟨n.label.rename ρ, renameAll ρ n.children⟩ := by
  cases n
  rfl

@[simp] theorem label_rename (n : Node) : (n.rename ρ).label = n.label.rename ρ := by
  rw [rename_eq]

@[simp] theorem location_rename (n : Node) : (n.rename ρ).location = n.location := by
  rw [rename_eq]
  rfl

theorem renameAll_eq_map (l : List Node) : renameAll ρ l = l.map (·.rename ρ) := by
  induction l with
  | nil => rfl
  | cons n rest ih => rw [renameAll, ih, List.map_cons]

@[simp] theorem children_rename (n : Node) : (n.rename ρ).children = n.children.map (·.rename ρ) := by
  rw [rename_eq, ← renameAll_eq_map]

mutual

theorem preorder_rename : (n : Node) → (n.rename ρ).preorder = n.preorder.map (·.rename ρ)
  | ⟨label, children⟩ => by
    rw [preorder_eq, preorder_eq, children_rename, ← renameAll_eq_map,
      preorderAll_renameAll children, List.map_cons]

theorem preorderAll_renameAll : (l : List Node) →
    preorderAll (renameAll ρ l) = (preorderAll l).map (·.rename ρ)
  | [] => rfl
  | n :: rest => by
    rw [renameAll, preorderAll, preorderAll, preorder_rename n, preorderAll_renameAll rest,
      List.map_append]

end

theorem walk_rename (n : Node) : (n.rename ρ).walk = n.walk.map (·.rename ρ) := by
  rw [walk_eq_preorder, walk_eq_preorder, preorder_rename]

/-- The handles in a tree belong to a renaming. -/
def IsCovered (r : Renaming) (n : Node) : Prop :=
  ∀ m ∈ n.preorder, ∀ h, m.label.references = some h ∨ m.label.declares = some h → r.Covers h

end Node

theorem preferLater_rename (ρ : Int → Int) (best : Option Node) (n : Node) :
    preferLater (best.map (·.rename ρ)) (n.rename ρ) = (preferLater best n).rename ρ := by
  cases best with
  | none => rfl
  | some b =>
    simp only [preferLater, Option.map_some, Node.location_rename]
    split <;> rfl

theorem innermostFrom_rename (ρ : Int → Int) (offset : Int) (best : Option Node) (stack : List Node) :
    innermostFrom offset (best.map (·.rename ρ)) (stack.map (·.rename ρ)) =
      (innermostFrom offset best stack).map (·.rename ρ) := by
  induction best, stack using innermostFrom.induct offset with
  | case1 best => rw [List.map_nil, innermostFrom, innermostFrom]
  | case2 best n stack htouches ih =>
    rw [List.map_cons, innermostFrom, innermostFrom, Node.location_rename, if_pos htouches,
      if_pos htouches, preferLater_rename, Node.children_rename, ← List.map_reverse,
      ← List.map_append]
    simpa using ih
  | case3 best n stack hmisses ih =>
    rw [List.map_cons, innermostFrom, innermostFrom, Node.location_rename, if_neg hmisses,
      if_neg hmisses]
    exact ih

/-- The same node is found at a place. -/
theorem innermost_rename (ρ : Int → Int) (root : Node) (offset : Int) :
    innermost (root.rename ρ) offset = (innermost root offset).map (·.rename ρ) :=
  innermostFrom_rename ρ offset none [root]

/-- What is found is the best candidate before, or a node of a tree on the stack. -/
theorem mem_of_innermostFrom {offset : Int} {best : Option Node} {stack : List Node} {m : Node}
    (h : innermostFrom offset best stack = some m) : best = some m ∨ m ∈ Node.preorderAll stack := by
  induction best, stack using innermostFrom.induct offset with
  | case1 best =>
    rw [innermostFrom] at h
    exact .inl h
  | case2 best n stack htouches ih =>
    rw [innermostFrom, if_pos htouches] at h
    simp only [List.unattach_attach, List.unattach_reverse] at ih
    have hchildren {l : List Node} {m : Node} (hm : m ∈ Node.preorderAll l.reverse) :
        m ∈ Node.preorderAll l := by
      induction l with
      | nil => exact hm
      | cons n l ih =>
        rw [List.reverse_cons, Node.preorderAll_append, List.mem_append] at hm
        rw [Node.preorderAll, List.mem_append]
        rcases hm with hm | hm
        · exact .inr (ih hm)
        · exact .inl (by simpa [Node.preorderAll] using hm)
    rw [Node.preorderAll, Node.preorder_eq, List.mem_append, List.mem_cons]
    rcases ih h with hbest | hmem
    · cases best with
      | none => exact .inr (.inl (.inl (Option.some.inj hbest).symm))
      | some b =>
        simp only [preferLater, Option.some.injEq] at hbest
        split at hbest
        · exact .inr (.inl (.inl hbest.symm))
        · exact .inl (congrArg some hbest)
    · rw [Node.preorderAll_append, List.mem_append] at hmem
      exact .inr (hmem.imp (fun hm => .inr (hchildren hm)) id)
  | case3 best n stack hmisses ih =>
    rw [innermostFrom, if_neg hmisses] at h
    refine (ih h).imp id fun hm => ?_
    rw [Node.preorderAll, List.mem_append]
    exact .inr hm

/-- The node at a place is one of the tree. -/
theorem mem_of_innermost {root m : Node} {offset : Int} (h : innermost root offset = some m) :
    m ∈ root.preorder := by
  have hmem := (mem_of_innermostFrom h).resolve_left nofun
  simpa [Node.preorderAll] using hmem

/-! ## Programs -/

/-- The trees of a program lie in their sources, and what was found in it lies in one of them. -/
structure Program.IsFormed (p : Program) : Prop where
  nodup : p.units.keys.Nodup
  source : ∀ n u, p.units.find? n = some u → u.source = n
  located : ∀ n u, p.units.find? n = some u → ∀ m ∈ u.root.preorder, m.location.source = n
  found : ∀ f ∈ p.findings, ∃ n, p.units.contains n = true ∧ f.liesIn n = true

/-- The unit with other handles. -/
def CompiledUnit.rename (ρ : Int → Int) (u : CompiledUnit) : CompiledUnit :=
  { u with root := u.root.rename ρ }

/-- Two programs are the same on the sources of a renaming, but for the handles. -/
structure Program.Mirrors (r : Renaming) (p p' : Program) : Prop where
  unit : ∀ n, r.Near n → p'.units.find? n = (p.units.find? n).map (·.rename r.handle)
  covered : ∀ n, r.Near n → ∀ u, p.units.find? n = some u → u.root.IsCovered r
  declared : ∀ h, r.Covers h →
    p'.declarations.find? (r.handle h) = (p.declarations.find? h).map r.declaration
  knows : ∀ h, r.Covers h → ∀ d, p.declarations.find? h = some d → r.Knows d
  found : ∀ n, r.Near n → p'.findings.filter (·.liesIn n) = p.findings.filter (·.liesIn n)
  concerns : ∀ n, r.Near n → ∀ f ∈ p.findings, f.liesIn n = true → r.Concerns n f

variable {r : Renaming} {p p' : Program}

/-- A node leads to the same declaration. -/
theorem Program.Mirrors.declarationOf? (h : p.Mirrors r p') {m : Node}
    (hm : ∀ handle, m.label.references = some handle ∨ m.label.declares = some handle →
      r.Covers handle) :
    p'.declarationOf? (m.rename r.handle) = (p.declarationOf? m).map r.declaration ∧
      ∀ d, p.declarationOf? m = some d → r.Knows d := by
  unfold Program.declarationOf?
  rw [Node.label_rename]
  simp only [NodeLabel.rename]
  cases hreferences : m.label.references with
  | some handle =>
    have hcovers := hm handle (.inl hreferences)
    exact ⟨h.declared handle hcovers, h.knows handle hcovers⟩
  | none =>
    cases hdeclares : m.label.declares with
    | some handle =>
      have hcovers := hm handle (.inr hdeclares)
      exact ⟨h.declared handle hcovers, h.knows handle hcovers⟩
    | none => exact ⟨rfl, by simp⟩

/-- A declaration occurs at the same places. -/
theorem occurrences_rename {d : Declaration} (hd : r.Covers d.handle) {u : CompiledUnit}
    (hu : u.root.IsCovered r) :
    occurrences (r.declaration d) (u.rename r.handle) = occurrences d u := by
  have hat (m : Node) (hm : m ∈ u.root.preorder) :
      occurrenceAt? (r.declaration d) (m.rename r.handle) = occurrenceAt? d m := by
    have hsame {handle : Option Int} (hhandle : ∀ x, handle = some x → r.Covers x) :
        handle.map r.handle = some (r.declaration d).handle ↔ handle = some d.handle := by
      rw [Option.map_eq_some_iff]
      constructor
      · rintro ⟨x, rfl, hx⟩
        rw [r.injective (hhandle x rfl) hd hx]
      · rintro rfl
        exact ⟨_, rfl, rfl⟩
    unfold occurrenceAt?
    simp only [Node.label_rename, NodeLabel.rename, Node.location_rename,
      hsame fun x hx => hu m hm x (.inl hx), hsame fun x hx => hu m hm x (.inr hx)]
    rfl
  have hfound : (u.rename r.handle).root.walk.filterMap (occurrenceAt? (r.declaration d)) =
      u.root.walk.filterMap (occurrenceAt? d) := by
    rw [show (u.rename r.handle).root = u.root.rename r.handle from rfl, Node.walk_rename,
      List.filterMap_map, Node.walk_eq_preorder]
    exact List.filterMap_congr hat
  unfold occurrences
  rw [hfound]
  rfl

end LanguageServer
