import LanguageServer.Proofs.Workspace.Referring
import LanguageServer.Proofs.Workspace.Reporting
import LanguageServer.Proofs.Workspace.Searching

/-!
# What is listed for a declaration

The places of a declaration are listed unit by unit, the units in the order of their names.  In each
unit they rise strictly, so none is listed twice: the one that declares it has a place at the name, and
no use stands there.  The highlights in a unit are what the list of all places has from it.

## Main definitions

* `SourceLocation.Before` — the order of places in a source.
* `Listing` — the places of a declaration in one unit.
* `Workspace.Lists` — the places of a declaration in a program, unit by unit.

## Main statements

* `View.Shows.mem_occurrences_iff`, `View.Shows.pairwise_occurrences` — the places in a unit.
* `Workspace.lists_of_declarationAt` — what queries about a declaration list.
-/

namespace LanguageServer

open Toy

/-- Sorted texts rise strictly, if none was there twice. -/
theorem Text.pairwise_lt_sorted {l : List String} (h : l.Nodup) : (sorted l).Pairwise (· < ·) :=
  (pairwise_sorted l).imp₂ (fun _ _ hle hne => lt_of_le_of_ne hle hne)
    ((sorted_perm l).nodup_iff.2 h)

/-! ## Places in order -/

/-- One place in a source stands before another: it starts earlier, or there and ends earlier. -/
def SourceLocation.Before (a b : SourceLocation) : Prop :=
  a.start < b.start ∨ a.start = b.start ∧ a.stop < b.stop

theorem Occurrence.atMost_iff {a b : Occurrence} : a.atMost b = true ↔
    a.location.start < b.location.start ∨
      a.location.start = b.location.start ∧ a.location.stop ≤ b.location.stop := by
  simp [Occurrence.atMost]

/-- Nothing is left out where no place is there twice. -/
theorem distinctPlaces_eq_self {seen : List SourceLocation} {l : List Occurrence}
    (h : (l.map (·.location)).Nodup) (hnew : ∀ o ∈ l, o.location ∉ seen) :
    distinctPlaces seen l = l := by
  induction l generalizing seen with
  | nil => rfl
  | cons o rest ih =>
    obtain ⟨hfirst, hrest⟩ := List.nodup_cons.1 h
    obtain ⟨ho, hothers⟩ := List.forall_mem_cons.1 hnew
    rw [distinctPlaces, if_neg ho, ih hrest fun x hx => ?_]
    intro hseen
    rcases List.mem_cons.1 hseen with heq | hseen
    · exact hfirst (List.mem_map.2 ⟨x, hx, heq⟩)
    · exact hothers x hx hseen

section

variable {d : Declaration} {u : CompiledUnit} {text : List Char}
  {declarations : Table Int Declaration}

namespace CompiledUnit.IsReadFrom

/-- A node of a unit is known by the place where its name ends. -/
theorem eq_of_occurrenceAt? (h : u.IsReadFrom text declarations)
    (hfind : declarations.find? d.handle = some d) {a b : Node} (ha : a ∈ u.root.preorder)
    (hb : b ∈ u.root.preorder) {o o' : Occurrence} (ho : occurrenceAt? d a = some o)
    (ho' : occurrenceAt? d b = some o') (hstop : o.location.stop = o'.location.stop) : a = b := by
  have hfirst := h.innermost_of_nameEnds ha (nameEnds_of_occurrenceAt? (h.sorted a ha) hfind ho)
  have hsecond := h.innermost_of_nameEnds hb (nameEnds_of_occurrenceAt? (h.sorted b hb) hfind ho')
  rw [hstop] at hfirst
  exact Option.some.inj (hfirst.symm.trans hsecond)

/-- No two identifiers of a unit stand in one place. -/
theorem nodup_locations_uses (h : u.IsReadFrom text declarations) :
    ((u.root.preorder.filter Node.isUse).map (·.location)).Nodup := by
  have hself := mem_preorder.2 (.inl (rfl : u.root = u.root))
  cases huse : u.root.isUse with
  | true =>
    have hleaf := ((h.sorted u.root hself).isNamedLeaf huse).2.children
    rw [Node.preorder_eq, hleaf, Node.preorderAll, List.filter_cons, if_pos huse]
    exact List.nodup_singleton _
  | false =>
    exact nodup_locations huse h.laidOut fun m hm hm' => ((h.sorted m hm).isNamedLeaf hm').2

/-- No two nodes of a unit at which a declaration occurs have it in one place. -/
theorem nodup_locations_occurring (h : u.IsReadFrom text declarations)
    (hfind : declarations.find? d.handle = some d) (honce : (Node.declared [u.root]).Nodup) :
    ((u.root.preorder.filterMap (occurrenceAt? d)).map (·.location)).Nodup := by
  have huses := h.nodup_locations_uses
  rw [Node.declared, Node.preorderAll, Node.preorderAll, List.append_nil] at honce
  rw [List.Nodup, List.pairwise_map, List.pairwise_filter] at huses
  rw [List.Nodup, List.pairwise_filterMap] at honce
  rw [List.Nodup, List.pairwise_map, List.pairwise_filterMap]
  refine (huses.and honce).imp_of_mem fun {a b} ha hb hapart o ho o' ho' heq => ?_
  -- Both would be one and the same node, but each use and each declaring node is there once.
  obtain rfl := h.eq_of_occurrenceAt? hfind ha hb ho ho' (congrArg (·.stop) heq)
  rcases (occurrenceAt?_eq_some_iff (h.sorted a ha)).1 ho with ⟨hreferences, -⟩ | ⟨hdeclares, -⟩
  · have huse : a.isUse = true := by simp [Node.isUse, hreferences]
    exact hapart.1 huse huse rfl
  · exact hapart.2 _ hdeclares _ hdeclares rfl

end CompiledUnit.IsReadFrom

end

/-! ## The places in a unit -/

namespace View.Shows

variable {v : View} {program : Program} {name : String} {u : CompiledUnit} {d : Declaration}

/-- The place of a node at which a declaration occurs lies in the unit of the node. -/
theorem source_of_occurrenceAt? (h : v.Shows program)
    (hfind : program.declarations.find? d.handle = some d) (hu : program.units.find? name = some u)
    {m : Node} (hm : m ∈ u.root.preorder) {o : Occurrence} (ho : occurrenceAt? d m = some o) :
    o.location.source = u.source := by
  obtain ⟨hsource, text, -, hread⟩ := h.unit name u hu
  rcases (occurrenceAt?_eq_some_iff (hread.sorted m hm)).1 ho with ⟨-, rfl⟩ | ⟨hdeclares, rfl⟩
  · exact (hread.laidOut m hm).source
  · obtain ⟨x, hx, -, hplace⟩ := h.exists_declaration hu hm hdeclares
    obtain rfl := Option.some.inj (hfind.symm.trans hx)
    exact hplace.trans hsource.symm

/-- The places of a declaration in a unit are those of the nodes at which it occurs, sorted. -/
theorem occurrences_eq (h : v.Shows program)
    (hfind : program.declarations.find? d.handle = some d) (hu : program.units.find? name = some u)
    (honce : (Node.declared [u.root]).Nodup) :
    occurrences d u = (u.root.preorder.filterMap (occurrenceAt? d)).mergeSort Occurrence.atMost := by
  obtain ⟨-, text, -, hread⟩ := h.unit name u hu
  have hhere : (u.root.preorder.filterMap (occurrenceAt? d)).filter
      (·.location.source == u.source) = u.root.preorder.filterMap (occurrenceAt? d) := by
    refine List.filter_eq_self.2 fun o ho => ?_
    obtain ⟨m, hm, ho⟩ := List.mem_filterMap.1 ho
    exact beq_iff_eq.2 (h.source_of_occurrenceAt? hfind hu hm ho)
  simp only [occurrences, Node.walk_eq_preorder, hhere]
  rw [distinctPlaces_eq_self (hread.nodup_locations_occurring hfind honce) fun _ _ => List.not_mem_nil]

/-- Which places of a unit are listed. -/
theorem mem_occurrences_iff (h : v.Shows program)
    (hfind : program.declarations.find? d.handle = some d) (hu : program.units.find? name = some u)
    (honce : (Node.declared [u.root]).Nodup) {o : Occurrence} :
    o ∈ occurrences d u ↔ ∃ m ∈ u.root.preorder,
      (m.label.references = some d.handle ∧ o = ⟨m.location, m.label.access⟩) ∨
        (m.label.declares = some d.handle ∧ o = ⟨d.location, m.label.access⟩) := by
  obtain ⟨-, text, -, hread⟩ := h.unit name u hu
  rw [h.occurrences_eq hfind hu honce, List.mem_mergeSort, List.mem_filterMap]
  refine exists_congr fun m => and_congr_right fun hm => ?_
  exact occurrenceAt?_eq_some_iff (hread.sorted m hm)

/-- The places in a unit rise strictly. -/
theorem pairwise_occurrences (h : v.Shows program)
    (hfind : program.declarations.find? d.handle = some d) (hu : program.units.find? name = some u)
    (honce : (Node.declared [u.root]).Nodup) :
    (occurrences d u).Pairwise fun a b => a.location.Before b.location := by
  obtain ⟨-, text, -, hread⟩ := h.unit name u hu
  have heq := h.occurrences_eq hfind hu honce
  have hrising : (occurrences d u).Pairwise fun a b => a.atMost b = true := by
    rw [heq]
    refine List.pairwise_mergeSort (fun a b c hab hbc => ?_) (fun a b => ?_) _
    · rw [Occurrence.atMost_iff] at hab hbc ⊢
      omega
    · rw [Bool.or_eq_true, Occurrence.atMost_iff, Occurrence.atMost_iff]
      omega
  have hdistinct : ((occurrences d u).map (·.location)).Nodup := by
    rw [heq, ((List.mergeSort_perm _ _).map _).nodup_iff]
    exact hread.nodup_locations_occurring hfind honce
  rw [List.Nodup, List.pairwise_map] at hdistinct
  refine (hrising.and hdistinct).imp_of_mem fun {a b} ha hb hab => ?_
  have hsource := (source_of_mem_occurrences ha).trans (source_of_mem_occurrences hb).symm
  rcases Occurrence.atMost_iff.1 hab.1 with hstart | ⟨hstart, hstop⟩
  · exact .inl hstart
  · refine .inr ⟨hstart, lt_of_le_of_ne hstop fun hsame => hab.2 ?_⟩
    rw [SourceLocation.mk.injEq]
    exact ⟨hsource, hstart, hsame⟩

/-- The place of an occurrence ends at an offset that is read back from its position. -/
theorem exists_stop_of_mem_occurrences (h : v.Shows program)
    (hfind : program.declarations.find? d.handle = some d) (hu : program.units.find? name = some u)
    {index : LineIndex} (hindex : v.index name = some index) {o : Occurrence}
    (ho : o ∈ occurrences d u) :
    ∃ stop : Nat, o.location.stop = stop ∧ index.offsetAt (index.positionAt stop) = .ok stop := by
  obtain ⟨m, hm, ho⟩ := exists_of_mem_occurrences ho
  obtain ⟨-, text, htext, hread⟩ := h.unit name u hu
  obtain rfl := Option.some.inj (htext.symm.trans hindex)
  obtain ⟨t, ht, hkind, hstop⟩ :=
    hread.exists_token hm (nameEnds_of_occurrenceAt? (hread.sorted m hm) hfind ho)
  have hnonempty := (isPieceOf_of_mem_tokens ht).nonempty
  exact ⟨t.span.stop, hstop, offsetAt_positionAt_of_name ht hkind (Nat.le_of_lt hnonempty)
    (Nat.le_refl _)⟩

/-- No range in a unit is listed twice. -/
theorem nodup_ranges (h : v.Shows program)
    (hfind : program.declarations.find? d.handle = some d) (hu : program.units.find? name = some u)
    (honce : (Node.declared [u.root]).Nodup) {index : LineIndex} (hindex : v.index name = some index) :
    ((occurrences d u).map fun o => index.rangeOf o.location.start o.location.stop).Nodup := by
  obtain ⟨-, text, -, hread⟩ := h.unit name u hu
  rw [List.Nodup, List.pairwise_map]
  refine (h.pairwise_occurrences hfind hu honce).imp_of_mem fun {a b} ha hb hbefore hsame => ?_
  obtain ⟨i, hi, hfirst⟩ := h.exists_stop_of_mem_occurrences hfind hu hindex ha
  obtain ⟨j, hj, hsecond⟩ := h.exists_stop_of_mem_occurrences hfind hu hindex hb
  have hposition : index.positionAt i = index.positionAt j := by
    rw [← hi, ← hj]
    exact congrArg Range.stop hsame
  rw [hposition, hsecond] at hfirst
  obtain rfl := Except.ok.inj hfirst
  -- Ranges that end in one place are those of one node.
  obtain ⟨m, hm, hma⟩ := exists_of_mem_occurrences ha
  obtain ⟨k, hk, hkb⟩ := exists_of_mem_occurrences hb
  obtain rfl := hread.eq_of_occurrenceAt? hfind hm hk hma hkb (hi.trans hj.symm)
  obtain rfl := Option.some.inj (hma.symm.trans hkb)
  rcases hbefore with hlt | ⟨-, hlt⟩ <;> exact Int.lt_irrefl _ hlt

end View.Shows

/-! ## Lists of places -/

namespace View

variable {v : View} {source : String} {d : Declaration}

/-- The places of the symbol at a position in all units. -/
def allReferences (v : View) (program : Program) (source : String) (p : Position) :
    Except Fault (List (String × Highlight)) :=
  match v.declarationAt? program source p with
  | none => .ok []
  | some d => v.locateAll d (Navigation.unitsInOrder program)

/-- Places of a source are listed with one URI, that of the source. -/
theorem locateAll_eq {units : List (String × CompiledUnit)} {uris : String → String}
    (h : ∀ e ∈ units, occurrences d e.2 ≠ [] → v.uri e.1 = .ok (uris e.1)) :
    v.locateAll d units =
      .ok (units.flatMap fun e => (v.highlightAll (occurrences d e.2)).map (uris e.1, ·)) := by
  induction units with
  | nil => rfl
  | cons e rest ih =>
    obtain ⟨hfirst, hrest⟩ := List.forall_mem_cons.1 h
    have hhere : v.locate e.1 (occurrences d e.2) =
        .ok ((v.highlightAll (occurrences d e.2)).map (uris e.1, ·)) := by
      by_cases hnone : occurrences d e.2 = []
      · rw [hnone]
        rfl
      · exact locate_eq_of_uri (hfirst hnone) _
    rw [locateAll, hhere, ih hrest]
    rfl

/-- A source without a URI is passed over only if there is nothing to show in it. -/
theorem highlightAll_eq_nil_of_locate {l : List Occurrence} {found : List (String × Highlight)}
    {f : Fault} (huri : v.uri source = .error f) (h : v.locate source l = .ok found) :
    v.highlightAll l = [] := by
  induction l generalizing found with
  | nil => rfl
  | cons o rest ih =>
    unfold locate at h
    cases hrange : v.range? o.location with
    | none =>
      simp only [hrange] at h
      simpa [highlightAll, hrange] using ih h
    | some range =>
      simp only [hrange, huri] at h
      cases h

/-- Places are listed only if each source with something to show has a URI. -/
theorem exists_uri_of_locateAll {units : List (String × CompiledUnit)}
    {found : List (String × Highlight)} (h : v.locateAll d units = .ok found) :
    ∀ e ∈ units, v.highlightAll (occurrences d e.2) ≠ [] → ∃ uri, v.uri e.1 = .ok uri := by
  induction units generalizing found with
  | nil => exact fun _ => nofun
  | cons e rest ih =>
    unfold locateAll at h
    cases hhere : v.locate e.1 (occurrences d e.2) with
    | error f =>
      rw [hhere] at h
      cases h
    | ok here =>
      cases hothers : v.locateAll d rest with
      | error f =>
        rw [hhere, hothers] at h
        cases h
      | ok others =>
        refine List.forall_mem_cons.2 ⟨fun hsome => ?_, ih hothers⟩
        cases huri : v.uri e.1 with
        | ok uri => exact ⟨uri, rfl⟩
        | error f => exact absurd (highlightAll_eq_nil_of_locate huri hhere) hsome

end View

theorem reads_allReferences (program : Program) (source : String) (p : Position) :
    Reads (Navigation.allReferences program source p)
      fun v => v.allReferences program source p := by
  refine ((reads_declarationAt program source p).bind (h := fun d v =>
    match d with
    | none => .ok []
    | some d => v.locateAll d (Navigation.unitsInOrder program)) fun d => ?_).congr fun v => ?_
  · cases d with
    | none => exact .pure []
    | some d => exact reads_locateAll d _
  · unfold View.allReferences
    cases v.declarationAt? program source p <;> rfl

/-- The places of a declaration in one unit. -/
structure Listing where
  name : String
  text : String
  places : List Occurrence

namespace Listing

/-- What is shown of the places. -/
def highlights (l : Listing) : List Highlight :=
  l.places.map fun o =>
    ⟨(LineIndex.ofString l.text).rangeOf o.location.start o.location.stop, o.access⟩

/-- The places are those of the nodes of the unit that refer to the declaration, and the name of the
declaration for the one that declares it, each with the access of the node.  They rise strictly, and no
range is shown twice. -/
structure IsOf (l : Listing) (d : Declaration) (u : CompiledUnit) : Prop where
  mem : ∀ o, o ∈ l.places ↔ ∃ m ∈ u.root.preorder,
    (m.label.references = some d.handle ∧ o = ⟨m.location, m.label.access⟩) ∨
      (m.label.declares = some d.handle ∧ o = ⟨d.location, m.label.access⟩)
  rising : l.places.Pairwise fun a b => a.location.Before b.location
  distinct : (l.highlights.map (·.range)).Nodup
  declares : (∃ m ∈ u.root.preorder, m.label.declares = some d.handle) ↔ l.name = d.location.source

end Listing

namespace Workspace

/-- The places of a declaration in the units of a program, in the order of their names, and with the
texts that were compiled. -/
structure Lists (ws : Workspace) (program : Program) (d : Declaration) (l : List Listing) : Prop where
  rising : (l.map (·.name)).Pairwise (· < ·)
  covers : ∀ name, name ∈ l.map (·.name) ↔ program.units.contains name = true
  unit : ∀ e ∈ l, ws.sources.find? e.name = some e.text ∧
    ∃ u, program.units.find? e.name = some u ∧ e.IsOf d u

section

variable {env : Environment} {budget : Nat} {ws ws' : Workspace} {program : Program}
  {source name : String} {u : CompiledUnit} {d : Declaration} {p : Position}

/-- After a compilation the units have different names. -/
theorem isFormed_of_compile (henv : env.IsToy budget) {said : List (Effect × Workspace)}
    (h : (compile env).run ws = ⟨said, .ok program, ws'⟩) : program.IsFormed := by
  obtain ⟨k, sources, exchanges, g, hgathered, rfl, -, -⟩ := exists_isGathered_of_compile henv h
  obtain ⟨place, hcomplete⟩ := hgathered.isComplete
  rw [hgathered.program]
  exact Gathering.isFormed_bindAll hcomplete

/-- After a compilation no two nodes of a unit declare one handle. -/
theorem nodup_declared_of_compile (henv : env.IsToy budget) {said : List (Effect × Workspace)}
    (h : (compile env).run ws = ⟨said, .ok program, ws'⟩)
    (hu : program.units.find? name = some u) : (Node.declared [u.root]).Nodup := by
  obtain ⟨k, sources, exchanges, g, hgathered, rfl, -, -⟩ := exists_isGathered_of_compile henv h
  have honce := hgathered.isSound.isWellFormed_bindAll.once
  rw [hgathered.program] at hu
  exact (List.nodup_flatMap.1 honce).1 u (List.mem_map.2 ⟨_, Table.mem_entries_of_find? hu, rfl⟩)

/-- The places of a declaration in a unit, with the text that was compiled. -/
def listing (ws : Workspace) (d : Declaration) (e : String × CompiledUnit) : Listing :=
  ⟨e.1, (ws.sources.find? e.1).getD "", occurrences d e.2⟩

/-- All that a unit has is shown. -/
theorem highlightAll_occurrences (henv : env.IsToy budget) {said : List (Effect × Workspace)}
    (h : (compile env).run ws = ⟨said, .ok program, ws'⟩)
    (hu : program.units.find? name = some u) (d : Declaration) :
    ws'.view.highlightAll (occurrences d u) = (ws'.listing d (name, u)).highlights := by
  obtain ⟨text, htext, hindex, -⟩ := exists_text_of_compile henv h hu
  have hname := ((shows_of_compile henv h).unit name u hu).1
  unfold View.highlightAll Listing.highlights listing
  simp only [htext, Option.getD_some]
  rw [← List.filterMap_eq_map]
  refine List.filterMap_congr fun o ho => ?_
  have hsource : o.location.source = name := (source_of_mem_occurrences ho).trans hname
  simp only [View.range?, hsource, show ws'.view.index name = _ from hindex]
  rfl

/-- The places of a declaration in a unit are those that they should be. -/
theorem isOf_listing (henv : env.IsToy budget) {said : List (Effect × Workspace)}
    (h : (compile env).run ws = ⟨said, .ok program, ws'⟩)
    (hd : ws'.view.declarationAt? program source p = some d)
    (hu : program.units.find? name = some u) : (ws'.listing d (name, u)).IsOf d u := by
  have hshows := shows_of_compile henv h
  have honce := nodup_declared_of_compile henv h hu
  obtain ⟨text, htext, hindex, -⟩ := exists_text_of_compile henv h hu
  obtain ⟨hfind, w, hw, k, hk, hdeclares⟩ := hshows.exists_declares_of_declarationAt? hd
  refine ⟨fun o => hshows.mem_occurrences_iff hfind hu honce,
    hshows.pairwise_occurrences hfind hu honce, ?_, ?_⟩
  · have hranges := hshows.nodup_ranges hfind hu honce
      (show ws'.view.index name = some (.ofString text) from hindex)
    simpa [listing, Listing.highlights, htext, List.map_map, Function.comp_def] using hranges
  · constructor
    · rintro ⟨m, hm, hdeclares⟩
      obtain ⟨x, hx, -, hsource⟩ := hshows.exists_declaration hu hm hdeclares
      obtain rfl := Option.some.inj (hfind.symm.trans hx)
      exact hsource.symm
    · rintro (rfl : name = d.location.source)
      obtain rfl := Option.some.inj (hw.symm.trans hu)
      exact ⟨k, hk, hdeclares⟩

theorem map_fst_unitsInOrder (program : Program) :
    (Navigation.unitsInOrder program).map (·.1) = Text.sorted program.units.keys := by
  unfold Navigation.unitsInOrder
  rw [List.map_filterMap]
  refine (List.filterMap_congr (g := some) fun name hname => ?_).trans (List.filterMap_some ..)
  obtain ⟨u, hu⟩ := Option.isSome_iff_exists.1
    ((Table.contains_iff_mem_keys _ _).2 (Text.mem_sorted.1 hname))
  simp [hu]

/-- What queries about a declaration list, and in which order. -/
theorem lists_unitsInOrder (henv : env.IsToy budget) {said : List (Effect × Workspace)}
    (h : (compile env).run ws = ⟨said, .ok program, ws'⟩)
    (hd : ws'.view.declarationAt? program source p = some d) :
    ws'.Lists program d ((Navigation.unitsInOrder program).map (ws'.listing d)) := by
  have hnames : ((Navigation.unitsInOrder program).map (ws'.listing d)).map (·.name) =
      Text.sorted program.units.keys := by
    rw [List.map_map, ← map_fst_unitsInOrder]
    rfl
  refine ⟨?_, fun name => ?_, fun e he => ?_⟩
  · rw [hnames]
    exact Text.pairwise_lt_sorted (isFormed_of_compile henv h).nodup
  · rw [hnames, Text.mem_sorted, Table.contains_iff_mem_keys]
  · obtain ⟨⟨name, u⟩, hu, rfl⟩ := List.mem_map.1 he
    have hu := mem_unitsInOrder.1 hu
    obtain ⟨text, htext, -⟩ := exists_text_of_compile henv h hu
    refine ⟨?_, u, hu, isOf_listing henv h hd hu⟩
    simp [listing, htext]

/-- The places of all units are found exactly if each unit that has a place has a URI. -/
theorem exists_locateAll_iff (henv : env.IsToy budget) {said : List (Effect × Workspace)}
    (h : (compile env).run ws = ⟨said, .ok program, ws'⟩) (d : Declaration) :
    (∃ found, ws'.view.locateAll d (Navigation.unitsInOrder program) = .ok found) ↔
      ∀ l ∈ (Navigation.unitsInOrder program).map (ws'.listing d), l.places ≠ [] →
        ∃ uri, ws'.uriFor l.name = .ok uri := by
  constructor
  · rintro ⟨found, hfound⟩ l hl hplaces
    obtain ⟨e, he, rfl⟩ := List.mem_map.1 hl
    have hsome : ws'.view.highlightAll (occurrences d e.2) ≠ [] := by
      rw [highlightAll_occurrences henv h (mem_unitsInOrder.1 he)]
      simpa [Listing.highlights] using hplaces
    obtain ⟨uri, huri⟩ := View.exists_uri_of_locateAll hfound e he hsome
    exact ⟨uri, view_uri_eq_ok_iff.1 huri⟩
  · intro huris
    refine View.exists_locateAll fun e he hsome => ?_
    obtain ⟨uri, huri⟩ := huris _ (List.mem_map_of_mem he) hsome
    exact ⟨uri, view_uri_eq_ok_iff.2 huri⟩

/-- The places of all units, unit by unit, each under the URI of its unit. -/
theorem locateAll_unitsInOrder (henv : env.IsToy budget) {said : List (Effect × Workspace)}
    (h : (compile env).run ws = ⟨said, .ok program, ws'⟩) {uris : String → String}
    (huris : ∀ l ∈ (Navigation.unitsInOrder program).map (ws'.listing d), l.places ≠ [] →
      ws'.uriFor l.name = .ok (uris l.name)) :
    ws'.view.locateAll d (Navigation.unitsInOrder program) =
      .ok (((Navigation.unitsInOrder program).map (ws'.listing d)).flatMap fun l =>
        l.highlights.map (uris l.name, ·)) := by
  rw [View.locateAll_eq fun e he hsome =>
    view_uri_eq_ok_iff.2 (huris _ (List.mem_map_of_mem he) hsome), List.flatMap_map]
  refine congrArg Except.ok (List.flatMap_congr fun e he => ?_)
  rw [highlightAll_occurrences henv h (mem_unitsInOrder.1 he)]
  rfl

/-- The queries about a declaration list the places of the declaration.  Where the position is, all
that its unit has is highlighted.  If each source that has a place has a URI, the places of all units
are given, unit by unit, each under the URI of its source and else as it is highlighted there.  Without
such a URI nothing is given. -/
theorem lists_of_declarationAt (henv : env.IsToy budget) {said : List (Effect × Workspace)}
    (hcompile : (compile env).run ws = ⟨said, .ok program, ws'⟩)
    (hd : ((Navigation.declarationAt program source p).run ws').result = .ok (some d)) :
    ∃ listings, ws'.Lists program d listings ∧
      (∃ l ∈ listings, l.name = source ∧
        ((Navigation.highlights program source p).run ws').result = .ok l.highlights) ∧
      ((∃ all, ((Navigation.allReferences program source p).run ws').result = .ok all) ↔
        ∀ l ∈ listings, l.places ≠ [] → ∃ uri, ws'.uriFor l.name = .ok uri) ∧
      ∀ uris : String → String,
        (∀ l ∈ listings, l.places ≠ [] → ws'.uriFor l.name = .ok (uris l.name)) →
          ((Navigation.allReferences program source p).run ws').result =
            .ok (listings.flatMap fun l => l.highlights.map (uris l.name, ·)) ∧
          ((Navigation.references program source p).run ws').result =
            .ok (listings.flatMap fun l => l.highlights.map fun h => ⟨uris l.name, h.range⟩) := by
  rw [(reads_declarationAt program source p).result_eq] at hd
  have hd := Except.ok.inj hd
  rw [(reads_highlights program source p).result_eq, (reads_allReferences program source p).result_eq,
    (reads_references program source p).result_eq]
  obtain ⟨u, hu⟩ := View.exists_unit_of_declarationAt? hd
  have hall : ws'.view.allReferences program source p =
      ws'.view.locateAll d (Navigation.unitsInOrder program) := by
    rw [View.allReferences, hd]
  have hreferences : ws'.view.references program source p =
      (ws'.view.locateAll d (Navigation.unitsInOrder program)).map
        (List.map fun r => ⟨r.1, r.2.range⟩) := by
    rw [View.references, hd]
  refine ⟨_, lists_unitsInOrder henv hcompile hd, ?_, ?_, fun uris huris => ?_⟩
  · have hmem : (source, u) ∈ Navigation.unitsInOrder program := mem_unitsInOrder.2 hu
    refine ⟨_, List.mem_map_of_mem hmem, rfl, ?_⟩
    rw [View.highlights, hd, hu]
    exact congrArg Except.ok (highlightAll_occurrences henv hcompile hu d)
  · rw [hall]
    exact exists_locateAll_iff henv hcompile d
  · rw [hall, hreferences, locateAll_unitsInOrder henv hcompile huris]
    refine ⟨rfl, ?_⟩
    simp only [Except.map, List.map_flatMap, List.map_map, Function.comp_def]

end

/-- The units that import one another list one use and the declaration, and two uses. -/
theorem lists_importing : ∃ said program ws' listings,
    (compile toyEnvironment).run importing = ⟨said, .ok program, ws'⟩ ∧
      ((Navigation.declarationAt program "b" ⟨0, 16⟩).run ws').result =
        .ok (some ⟨1, "x", "a", 4, 5⟩) ∧
      ws'.Lists program ⟨1, "x", "a", 4, 5⟩ listings ∧
      (∃ l ∈ listings, l.name = "b" ∧
        ((Navigation.highlights program "b" ⟨0, 16⟩).run ws').result = .ok l.highlights) ∧
      ∃ all, ((Navigation.allReferences program "b" ⟨0, 16⟩).run ws').result = .ok all := by
  obtain ⟨said, program, ws', hrun, hd, huris⟩ := exists_compile_importing
  obtain ⟨listings, hlists, hhighlights, hgiven, -⟩ :=
    lists_of_declarationAt (fun _ => rfl : toyEnvironment.IsToy 10) hrun hd
  refine ⟨said, program, ws', listings, hrun, hd, hlists, hhighlights, hgiven.2 fun l hl _ => ?_⟩
  exact huris l.name ((hlists.covers l.name).1 (List.mem_map_of_mem hl))

end Workspace

end LanguageServer
