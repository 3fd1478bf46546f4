import LanguageServer.Proofs.Document.Columns
import LanguageServer.Proofs.Workspace.Pointing

/-!
# Exactness of the search for a node

The search passes over every tree that the offset does not touch, and of equally short nodes it keeps
the last.  In the units of a program nothing is lost that way: what it finds is no longer than any node
of the unit that the offset touches, and nothing inside it is touched.  Since a unit reaches over its
whole text, some node is found at every offset.

## Main definitions

* `Node.IsInnermost` — no node of the tree that is touched is shorter, and none inside is touched.

## Main statements

* `isInnermost_of_innermost`, `exists_innermost` — what the search finds, and that it finds something.
* `Workspace.nodeAt_exact` — which positions of a source have a node, and which node it is.
-/

namespace LanguageServer

open Toy

namespace Node

/-- A node of the tree that the offset touches, such that no node of the tree that it touches is
shorter and none inside is touched. -/
structure IsInnermost (root : Node) (offset : Int) (m : Node) : Prop where
  mem : m ∈ root.preorder
  touches : m.location.contains offset = true
  shortest : ∀ k ∈ root.preorder, k.location.contains offset = true →
    m.location.length ≤ k.location.length
  deepest : ∀ k ∈ preorderAll m.children, k.location.contains offset = false

/-! ## Nodes inside others -/

mutual

/-- No node of a tree is larger than the tree. -/
theorem size_le_of_mem_preorder : (n : Node) → ∀ k ∈ n.preorder, k.size ≤ n.size
  | ⟨label, children⟩, k, hk => by
    rw [preorder_eq, List.mem_cons] at hk
    rcases hk with rfl | hk
    · exact Nat.le_refl _
    · have hbelow := size_le_of_mem_preorderAll children k hk
      rw [size_eq ⟨label, children⟩]
      exact Nat.le_trans hbelow (Nat.le_add_left _ 1)

theorem size_le_of_mem_preorderAll : (l : List Node) → ∀ k ∈ preorderAll l, k.size ≤ sizeAll l
  | [], _, hk => absurd hk List.not_mem_nil
  | n :: rest, k, hk => by
    rw [preorderAll, List.mem_append] at hk
    rw [sizeAll]
    rcases hk with hk | hk
    · exact Nat.le_trans (size_le_of_mem_preorder n k hk) (Nat.le_add_right _ _)
    · exact Nat.le_trans (size_le_of_mem_preorderAll rest k hk) (Nat.le_add_left _ _)

end

/-- What lies inside a node is smaller. -/
theorem size_lt_of_mem_children {n k : Node} (h : k ∈ preorderAll n.children) : k.size < n.size := by
  have hbelow := size_le_of_mem_preorderAll n.children k h
  rw [n.size_eq]
  omega

/-- What lies inside a node neither holds it nor stands before it. -/
theorem not_precedes_of_mem_children {source : String} {length : Nat} {n k : Node}
    (h : ∀ j ∈ n.preorder, j.IsLaidOut source length) (hk : k ∈ preorderAll n.children) :
    ¬ k.Precedes n := by
  rintro (hholds | hbefore)
  · exact Nat.lt_asymm (size_lt_of_mem_children hk) (size_lt_of_mem_children hholds)
  · have hself := h n (mem_preorder.2 (.inl rfl))
    obtain ⟨child, hchild, hk⟩ := mem_preorderAll.1 hk
    have hencloses := encloses_of_memAll n.children hself.filled
      (fun j hj => h j (by simp [preorder_eq, hj])) child hchild k hk
    have hfilled := hencloses.filled
    have hstop := Int.le_trans hencloses.stop (hself.inside child hchild).2
    omega

end Node

/-! ## What the search finds -/

section

variable {source : String} {length : Nat} {root m : Node} {offset : Int}

/-- What the search finds is innermost, where nodes are laid out. -/
theorem isInnermost_of_innermost (h : ∀ k ∈ root.preorder, k.IsLaidOut source length)
    (hfound : innermost root offset = some m) : root.IsInnermost offset m := by
  rw [innermost_eq (Node.isNested_of_isLaidOut h)] at hfound
  obtain ⟨hm, htouches⟩ := List.mem_filter.1 (mem_of_shortest hfound)
  obtain ⟨before, after, hsplit, hbefore, hafter⟩ := exists_of_shortest hfound
  have hpairs := (Node.pairwise_backward root h).filter (fun k => k.location.contains offset)
  rw [hsplit, List.pairwise_append] at hpairs
  have hcases {k : Node} (hk : k ∈ root.preorder) (htouched : k.location.contains offset = true) :
      k ∈ before ∨ k = m ∨ k ∈ after := by
    have hmem : k ∈ root.backward.filter (·.location.contains offset) :=
      List.mem_filter.2 ⟨Node.mem_backward.2 hk, htouched⟩
    rwa [hsplit, List.mem_append, List.mem_cons] at hmem
  rw [Node.mem_backward] at hm
  refine ⟨hm, htouches, fun k hk htouched => ?_, fun k hk => Bool.eq_false_iff.2 fun htouched => ?_⟩
  · rcases hcases hk htouched with hk | rfl | hk
    · exact hbefore k hk
    · exact Int.le_refl _
    · exact Int.le_of_lt (hafter k hk)
  · have hbelow : k ∈ m.preorder := by simp [Node.preorder_eq, hk]
    have hlaid := fun j hj => h j (Node.preorder_subset root m hm hj)
    -- The search comes to the nodes inside a node later, and only keeps it if they are longer.
    rcases hcases (Node.preorder_subset root m hm hbelow) htouched with hfirst | rfl | hlater
    · exact Node.not_precedes_of_mem_children hlaid hk (hpairs.2.2 k hfirst m List.mem_cons_self)
    · exact Nat.lt_irrefl _ (Node.size_lt_of_mem_children hk)
    · have hwithin := Node.within_of_mem hlaid hbelow
      have hlonger := hafter k hlater
      simp only [SourceLocation.length] at hlonger
      omega

/-- The search finds something wherever the tree is touched. -/
theorem exists_innermost (h : ∀ k ∈ root.preorder, k.IsLaidOut source length)
    (htouches : root.location.contains offset = true) : ∃ m, innermost root offset = some m := by
  rw [innermost_eq (Node.isNested_of_isLaidOut h)]
  have hroot : root ∈ root.backward.filter (·.location.contains offset) :=
    List.mem_filter.2 ⟨Node.mem_backward.2 (mem_preorder.2 (.inl rfl)), htouches⟩
  generalize root.backward.filter (·.location.contains offset) = touched at hroot
  cases touched using List.reverseRecOn with
  | nil => cases hroot
  | append_singleton touched last => exact ⟨_, shortest_append _ _ _⟩

end

/-! ## Units reach over their texts -/

namespace Toy

/-- A source is as long as its text. -/
theorem Origin.length_unit {o : Origin} {n text : String} (h : o.text? n = some text) :
    (o.unit n).length = text.toList.length := by
  have hlength (draft : Draft) : (parseFile n text draft).1.length = text.toList.length := by
    unfold parseFile
    simp only
    split <;> rfl
  have halone : o.alone n = parseFile n text .empty := by
    rw [Origin.alone, h]
    rfl
  show (o.alone n).1.length = _
  rw [halone, hlength]

/-- A unit reaches over its whole text. -/
theorem Gathering.location_root_bindAll {o : Origin} {place : String → Int}
    {exchanges : List Exchange} {g : Gathering} (h : IsComplete o place exchanges g) {n : String}
    {u : CompiledUnit} (hu : (bindAll g).units.find? n = some u) {text : String}
    (htext : o.text? n = some text) : u.root.location = ⟨n, 0, text.toList.length⟩ := by
  obtain ⟨w, c, hw, rfl⟩ := exists_bind_of_bindAll h.places.nodup hu
  obtain ⟨-, rfl⟩ := h.places.eq_of_find? hw
  have hsource : (o.unit n).source = n := o.source_unit n
  have hlength := Origin.length_unit htext
  show SourceLocation.mk (o.unit n).source (0 : Nat) (o.unit n).length = _
  rw [hsource, hlength]
  rfl

end Toy

namespace Workspace

variable {env : Environment} {budget : Nat} {ws ws' : Workspace} {program : Program}

/-- After a compilation each unit is that of a text: it is looked up in it, its nodes are laid out in
it, and its root reaches over all of it. -/
theorem exists_text_of_compile (henv : env.IsToy budget) {said : List (Effect × Workspace)}
    (h : (compile env).run ws = ⟨said, .ok program, ws'⟩) {name : String} {u : CompiledUnit}
    (hu : program.units.find? name = some u) :
    ∃ text, ws'.sources.find? name = some text ∧ ws'.lineIndex? name = some (.ofString text) ∧
      (∀ m ∈ u.root.preorder, m.IsLaidOut name text.toList.length) ∧
      u.root.location = ⟨name, 0, text.toList.length⟩ := by
  obtain ⟨k, sources, exchanges, g, hgathered, rfl, hknows, hsources⟩ :=
    exists_isGathered_of_compile henv h
  obtain ⟨place, hcomplete⟩ := hgathered.isComplete
  obtain ⟨rfl, text, hindex, hread⟩ := hgathered.shows.unit name u hu
  rw [hgathered.program] at hu
  have hcontains := (Gathering.yields_bindAll hcomplete hu).1
  have hview : k.view.index u.source = (k.sources.find? u.source).map LineIndex.ofString := rfl
  rw [hview, hgathered.find?_sources hcomplete hcontains, Option.map_eq_some_iff] at hindex
  obtain ⟨origin, horigin, hsame⟩ := hindex
  have hlength : origin.toList.length = text.toList.length :=
    congrArg (·.text.length) hsame
  refine ⟨origin, ?_, ?_, ?_, Gathering.location_root_bindAll hcomplete hu horigin⟩
  · rw [hsources, hgathered.find?_sources hcomplete hcontains, horigin]
  · rw [show ws'.lineIndex? u.source = ws'.view.index u.source from rfl, hknows.view, hview,
      hgathered.find?_sources hcomplete hcontains, horigin, Option.map_some]
  · rw [hlength]
    exact hread.laidOut

/-- The search for a node is exact.  After a compilation a position of a source has no node exactly if
the source has no unit, or the position has no offset in the text that was compiled.  Otherwise a node
of the unit is found that the offset touches; no node of the unit that it touches is shorter, and none
inside the node that is found is touched. -/
theorem nodeAt_exact (henv : env.IsToy budget) {said : List (Effect × Workspace)}
    (hcompile : (compile env).run ws = ⟨said, .ok program, ws'⟩) (name : String) (p : Position) :
    ∃ found, ((Navigation.nodeAt program name p).run ws').result = .ok found ∧
      (found = none ↔ program.units.contains name = false ∨
        ∃ text e, ws'.sources.find? name = some text ∧
          (LineIndex.ofString text).offsetAt p = .error e) ∧
      ∀ m, found = some m → ∃ u text offset, program.units.find? name = some u ∧
        ws'.sources.find? name = some text ∧
        (LineIndex.ofString text).offsetAt p = .ok offset ∧ u.root.IsInnermost offset m := by
  refine ⟨_, (reads_nodeAt program name p).result_eq ws', ?_⟩
  cases hu : program.units.find? name with
  | none => simp [View.nodeAt?, hu, Table.contains]
  | some u =>
    obtain ⟨text, htext, hindex, hlaid, hroot⟩ := exists_text_of_compile henv hcompile hu
    have hindex : ws'.view.index name = some (.ofString text) := hindex
    cases hoffset : (LineIndex.ofString text).offsetAt p with
    | error e =>
      have hnone : ws'.view.nodeAt? program name p = none := by
        simp [View.nodeAt?, View.offset?, hu, hindex, hoffset, Except.toOption]
      rw [hnone]
      exact ⟨iff_of_true rfl (.inr ⟨text, e, htext, hoffset⟩), by simp⟩
    | ok offset =>
      have hsearch : ws'.view.nodeAt? program name p = innermost u.root offset := by
        simp [View.nodeAt?, View.offset?, hu, hindex, hoffset, Except.toOption]
      have hinside := (LineIndex.positionAt_of_offsetAt hoffset).1.le_length
      have htouches : u.root.location.contains offset = true := by
        rw [hroot, SourceLocation.contains_iff]
        exact ⟨Int.natCast_nonneg offset, Int.ofNat_le.2 hinside⟩
      obtain ⟨m, hfound⟩ := exists_innermost hlaid htouches
      rw [hsearch, hfound]
      refine ⟨iff_of_false (Option.some_ne_none m) ?_, ?_⟩
      · rintro (hnone | ⟨other, e, hother, he⟩)
        · simp [Table.contains, hu] at hnone
        · obtain rfl := Option.some.inj (htext.symm.trans hother)
          rw [hoffset] at he
          cases he
      · rintro _ ⟨⟩
        exact ⟨u, text, offset, rfl, htext, hoffset, isInnermost_of_innermost hlaid hfound⟩

/-- Between the statements `1;` and `abcdef;` both are touched, and the identifier, and the unit. -/
theorem nodeAt_exact_crowded : ∃ said program ws' u m,
    (compile toyEnvironment).run crowded = ⟨said, .ok program, ws'⟩ ∧
      program.units.find? "u" = some u ∧
      ((Navigation.nodeAt program "u" ⟨0, 13⟩).run ws').result = .ok (some m) ∧
      u.root.IsInnermost 13 m := by
  have henv : toyEnvironment.IsToy 10 := fun _ => rfl
  have hany : (nodesOf ((compile toyEnvironment).run crowded) "u").any (fun _ => true) = true := by
    decide +kernel
  have hsources : ((compile toyEnvironment).run crowded).state.sources.find? "u" =
      some "var abcdef;1;abcdef;" := by
    decide +kernel
  have hoffset : (LineIndex.ofString "var abcdef;1;abcdef;").offsetAt ⟨0, 13⟩ = .ok 13 := by
    decide +kernel
  obtain ⟨said, program, ws', u, -, hrun, hu, -⟩ := exists_mem_of_nodesOf hany
  rw [hrun] at hsources
  obtain ⟨found, hresult, hnone, hsome⟩ := nodeAt_exact henv hrun "u" ⟨0, 13⟩
  cases found with
  | none =>
    rcases hnone.1 rfl with hunit | ⟨text, e, htext, he⟩
    · simp [Table.contains, hu] at hunit
    · obtain rfl := Option.some.inj (hsources.symm.trans htext)
      rw [hoffset] at he
      cases he
  | some m =>
    obtain ⟨v, text, offset, hv, htext, hat, hinnermost⟩ := hsome m rfl
    obtain rfl := Option.some.inj (hu.symm.trans hv)
    obtain rfl := Option.some.inj (hsources.symm.trans htext)
    obtain rfl := Except.ok.inj (hoffset.symm.trans hat)
    exact ⟨said, program, ws', u, m, hrun, hu, hresult, hinnermost⟩

end Workspace

end LanguageServer
