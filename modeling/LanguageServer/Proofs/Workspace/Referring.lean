import LanguageServer.Proofs.Workspace.Locality
import LanguageServer.Proofs.Workspace.Pointing

/-!
# The places of a declaration

The places that are listed for a declaration lead back to it: a query behind any of them is answered as
the query was for which they were listed.  The place where the declaration is bound is one of them.  A
list is given only if every source in which the declaration occurs has a URI.

## Main definitions

* `Workspace.Marks` — a range is the place of an occurrence.
* `Workspace.IsCoherent` — the places of a declaration are those that lead to it.

## Main statements

* `exists_mem_occurrences` — every place at which a declaration occurs is listed.
* `View.mem_locateAll_iff`, `View.exists_locateAll` — what is listed, and when a list is given.
* `View.Shows.declarationAt?_of_mem_occurrences` — behind an occurrence its declaration is found.
* `Workspace.isCoherent_of_declarationAt` — what is listed for a declaration is coherent.
-/

namespace LanguageServer

open Toy

/-! ## Occurrences -/

section

variable {d : Declaration} {u : CompiledUnit} {o : Occurrence}

/-- Each place is listed once at least. -/
theorem exists_mem_distinctPlaces {seen : List SourceLocation} {l : List Occurrence} (ho : o ∈ l)
    (hnew : o.location ∉ seen) : ∃ kept ∈ distinctPlaces seen l, kept.location = o.location := by
  induction l generalizing seen with
  | nil => cases ho
  | cons x rest ih =>
    unfold distinctPlaces
    by_cases hx : x.location = o.location
    · rw [if_neg (hx ▸ hnew)]
      exact ⟨x, List.mem_cons_self, hx⟩
    · have hrest : o ∈ rest := by
        rcases List.mem_cons.1 ho with rfl | ho
        · exact absurd rfl hx
        · exact ho
      split
      · exact ih hrest hnew
      · have hlater : o.location ∉ x.location :: seen := by
          simpa using ⟨fun heq => hx heq.symm, hnew⟩
        obtain ⟨kept, hkept, hsame⟩ := ih hrest hlater
        exact ⟨kept, List.mem_cons_of_mem _ hkept, hsame⟩

/-- An occurrence is that of a node which refers to the declaration, or introduces it. -/
theorem exists_of_mem_occurrences (h : o ∈ occurrences d u) :
    ∃ m ∈ u.root.preorder, occurrenceAt? d m = some o := by
  have hfound := (List.mem_filter.1 (mem_of_mem_distinctPlaces (List.mem_mergeSort.1 h))).1
  rw [Node.walk_eq_preorder] at hfound
  exact List.mem_filterMap.1 hfound

/-- The place of every node that stands for a declaration is listed. -/
theorem exists_mem_occurrences {m : Node} (hm : m ∈ u.root.preorder)
    (ho : occurrenceAt? d m = some o) (hsource : o.location.source = u.source) :
    ∃ kept ∈ occurrences d u, kept.location = o.location := by
  have hfound : o ∈ (u.root.walk.filterMap (occurrenceAt? d)).filter
      (·.location.source == u.source) := by
    rw [Node.walk_eq_preorder]
    exact List.mem_filter.2 ⟨List.mem_filterMap.2 ⟨m, hm, ho⟩, by simpa using hsource⟩
  obtain ⟨kept, hkept, hsame⟩ := exists_mem_distinctPlaces hfound List.not_mem_nil
  exact ⟨kept, List.mem_mergeSort.2 hkept, hsame⟩

/-- At which nodes a declaration occurs: at those that refer to it, and at those that declare it, where
the place is that of the name. -/
theorem occurrenceAt?_eq_some_iff {source : String} {m : Node} (h : IsSorted source m) :
    occurrenceAt? d m = some o ↔
      (m.label.references = some d.handle ∧ o = ⟨m.location, m.label.access⟩) ∨
        (m.label.declares = some d.handle ∧ o = ⟨d.location, m.label.access⟩) := by
  unfold occurrenceAt?
  by_cases hdeclares : m.label.declares = some d.handle
  · simp [h.references_eq_none hdeclares, hdeclares, eq_comm]
  · by_cases hreferences : m.label.references = some d.handle
    · simp [hreferences, hdeclares, eq_comm]
    · simp [hreferences, hdeclares]

/-- An occurrence ends where the name of its node does: a use is a name, and a node that declares
something is listed with the place of its name. -/
theorem nameEnds_of_occurrenceAt? {source : String} {m : Node} {declarations : Table Int Declaration}
    (h : IsSorted source m) (hfind : declarations.find? d.handle = some d)
    (ho : occurrenceAt? d m = some o) : m.NameEnds declarations o.location.stop := by
  rcases (occurrenceAt?_eq_some_iff h).1 ho with ⟨hreferences, rfl⟩ | ⟨hdeclares, rfl⟩
  · have huse : m.isUse = true := by simp [Node.isUse, hreferences]
    exact .inl ⟨(h.isNamedLeaf huse).1, rfl⟩
  · exact .inr ⟨d.handle, d, hdeclares, hfind, rfl⟩

end

theorem mem_unitsInOrder {program : Program} {e : String × CompiledUnit} :
    e ∈ Navigation.unitsInOrder program ↔ program.units.find? e.1 = some e.2 := by
  obtain ⟨name, u⟩ := e
  unfold Navigation.unitsInOrder
  constructor
  · intro he
    obtain ⟨other, -, hother⟩ := List.mem_filterMap.1 he
    obtain ⟨w, hw, heq⟩ := Option.map_eq_some_iff.1 hother
    obtain ⟨rfl, rfl⟩ := Prod.mk.inj heq
    exact hw
  · intro hu
    have hcontains : program.units.contains name = true := by simp [Table.contains, hu]
    refine List.mem_filterMap.2 ⟨name, ?_, by simp [hu]⟩
    exact Text.mem_sorted.2 ((Table.contains_iff_mem_keys _ _).1 hcontains)

/-! ## Lists of places -/

namespace View

variable {v : View} {source : String} {d : Declaration}

/-- What is listed of one source. -/
theorem mem_locate_iff {l : List Occurrence} {found : List (String × Highlight)}
    (h : v.locate source l = .ok found) {r : String × Highlight} :
    r ∈ found ↔ v.uri source = .ok r.1 ∧ r.2 ∈ v.highlightAll l := by
  induction l generalizing found with
  | nil =>
    obtain rfl := Except.ok.inj h
    simp [highlightAll]
  | cons o rest ih =>
    unfold locate at h
    unfold highlightAll at ih ⊢
    cases hrange : v.range? o.location with
    | none =>
      simp only [hrange] at h
      simpa [hrange] using ih h
    | some range =>
      simp only [hrange] at h
      cases huri : v.uri source with
      | error e =>
        rw [huri] at h
        cases h
      | ok uri =>
        cases hothers : v.locate source rest with
        | error e =>
          rw [huri, hothers] at h
          cases h
        | ok others =>
          rw [huri, hothers] at h
          obtain rfl := Except.ok.inj h
          obtain ⟨named, shown⟩ := r
          have hrest := ih hothers
          rw [huri] at hrest
          simp only [List.mem_cons, Prod.mk.injEq, hrest, List.filterMap_cons, hrange,
            Option.map_some, Except.ok.injEq]
          tauto

/-- Places of a source that has a URI are listed. -/
theorem exists_locate {l : List Occurrence} (h : l ≠ [] → ∃ uri, v.uri source = .ok uri) :
    ∃ found, v.locate source l = .ok found := by
  induction l with
  | nil => exact ⟨[], rfl⟩
  | cons o rest ih =>
    obtain ⟨uri, huri⟩ := h (List.cons_ne_nil o rest)
    obtain ⟨others, hothers⟩ := ih fun _ => ⟨uri, huri⟩
    unfold locate
    cases hrange : v.range? o.location with
    | none => exact ⟨others, hothers⟩
    | some range =>
      simp only [huri, hothers]
      exact ⟨_, rfl⟩

/-- What is listed of several units. -/
theorem mem_locateAll_iff {units : List (String × CompiledUnit)} {found : List (String × Highlight)}
    (h : v.locateAll d units = .ok found) {r : String × Highlight} :
    r ∈ found ↔ ∃ e ∈ units, v.uri e.1 = .ok r.1 ∧ r.2 ∈ v.highlightAll (occurrences d e.2) := by
  induction units generalizing found with
  | nil =>
    obtain rfl := Except.ok.inj h
    simp
  | cons e rest ih =>
    unfold locateAll at h
    cases hhere : v.locate e.1 (occurrences d e.2) with
    | error f =>
      rw [hhere] at h
      cases h
    | ok here =>
      cases hothers : v.locateAll d rest with
      | error f =>
        rw [hhere, hothers] at h
        cases h
      | ok others =>
        rw [hhere, hothers] at h
        obtain rfl := Except.ok.inj h
        simp only [List.mem_append, mem_locate_iff hhere, ih hothers, List.mem_cons, exists_eq_or_imp]

/-- Places of units are listed if every unit that has some has a URI. -/
theorem exists_locateAll {units : List (String × CompiledUnit)}
    (h : ∀ e ∈ units, occurrences d e.2 ≠ [] → ∃ uri, v.uri e.1 = .ok uri) :
    ∃ found, v.locateAll d units = .ok found := by
  induction units with
  | nil => exact ⟨[], rfl⟩
  | cons e rest ih =>
    obtain ⟨hfirst, hrest⟩ := List.forall_mem_cons.1 h
    obtain ⟨here, hhere⟩ := exists_locate hfirst
    obtain ⟨others, hothers⟩ := ih hrest
    unfold locateAll
    rw [hhere, hothers]
    exact ⟨_, rfl⟩

end View

/-! ## Declarations that are found -/

/-- A declaration is found in the units of a program only. -/
theorem View.exists_unit_of_declarationAt? {v : View} {program : Program} {name : String}
    {p : Position} {d : Declaration} (h : v.declarationAt? program name p = some d) :
    ∃ u, program.units.find? name = some u := by
  obtain ⟨m, hnode, -⟩ := Option.bind_eq_some_iff.1 h
  obtain ⟨u, hu, -⟩ := Option.bind_eq_some_iff.1 hnode
  exact ⟨u, hu⟩

namespace View.Shows

variable {v : View} {program : Program} {name : String} {u : CompiledUnit} {d : Declaration}

/-- A declaration that is found is known by its handle, and a node of a unit introduces it. -/
theorem exists_declares_of_declarationAt? (h : v.Shows program) {p : Position}
    (hd : v.declarationAt? program name p = some d) :
    program.declarations.find? d.handle = some d ∧
      ∃ w, program.units.find? d.location.source = some w ∧
        ∃ k ∈ w.root.preorder, k.label.declares = some d.handle := by
  obtain ⟨m, hnode, hof⟩ := Option.bind_eq_some_iff.1 hd
  obtain ⟨u, hu, hnode⟩ := Option.bind_eq_some_iff.1 hnode
  obtain ⟨offset, -, hfound⟩ := Option.bind_eq_some_iff.1 hnode
  obtain ⟨-, text, -, hread⟩ := h.unit name u hu
  have hm := mem_of_innermost hfound
  unfold Program.declarationOf? at hof
  split at hof
  · next handle _ hreferences =>
    obtain ⟨x, w, hfind, rfl, hw, hk⟩ := h.exists_declaration_of_references hu hm hreferences
    obtain rfl := Option.some.inj (hof.symm.trans hfind)
    exact ⟨hfind, w, hw, hk⟩
  · next handle _ hdeclares =>
    obtain ⟨x, hfind, rfl, hsource⟩ := h.exists_declaration hu hm hdeclares
    obtain rfl := Option.some.inj (hof.symm.trans hfind)
    exact ⟨hfind, u, hsource ▸ hu, m, hm, hdeclares⟩
  · cases hof

/-- Behind an occurrence its declaration is found. -/
theorem declarationAt?_of_mem_occurrences (h : v.Shows program)
    (hfind : program.declarations.find? d.handle = some d)
    (hu : program.units.find? name = some u) {o : Occurrence} (ho : o ∈ occurrences d u)
    {index : LineIndex} (hindex : v.index name = some index) :
    v.declarationAt? program name (index.positionAt o.location.stop) = some d := by
  obtain ⟨m, hm, hoccurs⟩ := exists_of_mem_occurrences ho
  obtain ⟨-, text, -, hread⟩ := h.unit name u hu
  have hsorted := hread.sorted m hm
  rw [View.declarationAt?,
    h.nodeAt?_of_nameEnds hu hm hindex (nameEnds_of_occurrenceAt? hsorted hfind hoccurs)]
  rcases (occurrenceAt?_eq_some_iff hsorted).1 hoccurs with ⟨hreferences, -⟩ | ⟨hdeclares, -⟩
  · simp [Program.declarationOf?, hreferences, hfind]
  · simp [Program.declarationOf?, hsorted.references_eq_none hdeclares, hdeclares, hfind]

/-- The place where a declaration is bound is one at which it occurs. -/
theorem exists_mem_occurrences_of_declares (h : v.Shows program)
    (hu : program.units.find? d.location.source = some u) {k : Node} (hk : k ∈ u.root.preorder)
    (hdeclares : k.label.declares = some d.handle) :
    ∃ o ∈ occurrences d u, o.location = d.location := by
  obtain ⟨hsource, text, -, hread⟩ := h.unit d.location.source u hu
  have hnone := (hread.sorted k hk).references_eq_none hdeclares
  refine exists_mem_occurrences (o := ⟨d.location, k.label.access⟩) hk ?_ hsource.symm
  simp [occurrenceAt?, hnone, hdeclares]

end View.Shows

/-! ## Coherence -/

namespace Workspace

/-- A range is that of a place in a source at which a declaration occurs. -/
def Marks (ws : Workspace) (program : Program) (d : Declaration) (name : String) (range : Range) :
    Prop :=
  ∃ u o index, program.units.find? name = some u ∧ o ∈ occurrences d u ∧
    ws.lineIndex? name = some index ∧ range = index.rangeOf o.location.start o.location.stop

/-- The answers to queries about a declaration: if there is a list, its places are those at which the
declaration occurs, and queries behind any of these have the same answers.  If every source in which it
occurs has a URI, there is a list, and the place where it is bound is in it. -/
structure IsCoherent (ws : Workspace) (program : Program) (d : Declaration)
    (definition references : Except Fault (List Location)) : Prop where
  listed : ∀ places, references = .ok places → ∀ place,
    place ∈ places ↔
      ∃ name, ws.uriFor name = .ok place.uri ∧ ws.Marks program d name place.range
  closed : ∀ name range, ws.Marks program d name range →
    ((Navigation.definition program name range.stop).run ws).result = definition ∧
      ((Navigation.references program name range.stop).run ws).result = references
  contains : (∀ name range, ws.Marks program d name range → ∃ uri, ws.uriFor name = .ok uri) →
    ∃ place places, definition = .ok [place] ∧ references = .ok places ∧ place ∈ places

section

variable {env : Environment} {budget : Nat} {ws ws' : Workspace} {program : Program}
  {source name : String} {u : CompiledUnit} {d : Declaration} {p : Position}

/-- The range of an occurrence is the one that is shown of it. -/
theorem marks_iff (hshows : ws.view.Shows program) {range : Range} :
    ws.Marks program d name range ↔ ∃ u, program.units.find? name = some u ∧
      ∃ hl ∈ ws.view.highlightAll (occurrences d u), range = hl.range := by
  constructor
  · rintro ⟨u, o, index, hu, ho, hindex, rfl⟩
    have hsource := (source_of_mem_occurrences ho).trans (hshows.unit name u hu).1
    have hrange : ws.view.range? o.location =
        some (index.rangeOf o.location.start o.location.stop) := by
      rw [View.range?, hsource, show ws.view.index name = some index from hindex]
      rfl
    exact ⟨u, hu, _, List.mem_filterMap.2 ⟨o, ho, by rw [hrange]; rfl⟩, rfl⟩
  · rintro ⟨u, hu, hl, hmem, rfl⟩
    obtain ⟨o, ho, hshown⟩ := List.mem_filterMap.1 hmem
    obtain ⟨range, hrange, rfl⟩ := Option.map_eq_some_iff.1 hshown
    obtain ⟨index, hindex, rfl⟩ := Option.map_eq_some_iff.1 hrange
    have hsource := (source_of_mem_occurrences ho).trans (hshows.unit name u hu).1
    exact ⟨u, o, index, hu, ho, hsource ▸ hindex, rfl⟩

theorem view_uri_eq_ok_iff {uri : String} :
    ws.view.uri name = .ok uri ↔ ws.uriFor name = .ok uri := by
  unfold Workspace.view
  cases huri : ws.uriFor name <;> simp [huri]

/-- What a list of places consists of. -/
theorem mem_places_iff (hshows : ws.view.Shows program) {found : List (String × Highlight)}
    (hfound : ws.view.locateAll d (Navigation.unitsInOrder program) = .ok found) {place : Location} :
    place ∈ found.map (fun r => ⟨r.1, r.2.range⟩) ↔
      ∃ name, ws.uriFor name = .ok place.uri ∧ ws.Marks program d name place.range := by
  rw [List.mem_map]
  constructor
  · rintro ⟨r, hr, rfl⟩
    obtain ⟨⟨name, u⟩, he, huri, hshown⟩ := (View.mem_locateAll_iff hfound).1 hr
    have hmarks := (marks_iff hshows).2 ⟨u, mem_unitsInOrder.1 he, r.2, hshown, rfl⟩
    exact ⟨name, view_uri_eq_ok_iff.1 huri, hmarks⟩
  · rintro ⟨name, huri, hmarks⟩
    obtain ⟨u, hu, hl, hshown, hrange⟩ := (marks_iff hshows).1 hmarks
    refine ⟨(place.uri, hl), (View.mem_locateAll_iff hfound).2 ?_, by rw [← hrange]⟩
    exact ⟨(name, u), mem_unitsInOrder.2 hu, view_uri_eq_ok_iff.2 huri, hshown⟩

/-- A list of places is given if every source in which the declaration occurs has a URI. -/
theorem exists_locateAll_of_marks (hshows : ws.view.Shows program)
    (huris : ∀ name range, ws.Marks program d name range → ∃ uri, ws.uriFor name = .ok uri) :
    ∃ found, ws.view.locateAll d (Navigation.unitsInOrder program) = .ok found := by
  refine View.exists_locateAll fun ⟨name, u⟩ he hsome => ?_
  have hu := mem_unitsInOrder.1 he
  obtain ⟨o, ho⟩ := List.exists_mem_of_ne_nil _ hsome
  obtain ⟨-, text, hindex, -⟩ := hshows.unit name u hu
  obtain ⟨uri, huri⟩ := huris name _ ⟨u, o, _, hu, ho, hindex, rfl⟩
  exact ⟨uri, view_uri_eq_ok_iff.2 huri⟩

/-- Queries behind an occurrence are answered as those about its declaration. -/
theorem AnswersFor.eq_of_marks (hanswers : ws.AnswersFor program source u p d)
    (hshows : ws.view.Shows program) (hfind : program.declarations.find? d.handle = some d)
    {range : Range} (hmarks : ws.Marks program d name range) :
    ((Navigation.definition program name range.stop).run ws).result =
        ((Navigation.definition program source p).run ws).result ∧
      ((Navigation.references program name range.stop).run ws).result =
        ((Navigation.references program source p).run ws).result := by
  obtain ⟨w, o, index, hw, ho, hindex, rfl⟩ := hmarks
  have hthere := hshows.declarationAt?_of_mem_occurrences hfind hw ho hindex
  have hothers := answersFor_of_declarationAt? hw hthere
  exact ⟨hothers.definition.trans hanswers.definition.symm,
    hothers.references.trans hanswers.references.symm⟩

/-- The place where a declaration is bound is marked, and it is what a query for it gives. -/
theorem exists_marks_of_declares (hshows : ws.view.Shows program)
    (hu : program.units.find? d.location.source = some u) {k : Node} (hk : k ∈ u.root.preorder)
    (hdeclares : k.label.declares = some d.handle) :
    ∃ range, ws.Marks program d d.location.source range ∧
      ∀ uri, ws.uriFor d.location.source = .ok uri →
        ((toLocation d.location).run ws).result = .ok (some ⟨uri, range⟩) := by
  obtain ⟨o, ho, hplace⟩ := hshows.exists_mem_occurrences_of_declares hu hk hdeclares
  obtain ⟨-, text, hindex, -⟩ := hshows.unit _ u hu
  refine ⟨(LineIndex.ofString text).rangeOf d.location.start d.location.stop,
    ⟨u, o, _, hu, ho, hindex, by rw [hplace]⟩, fun uri huri => ?_⟩
  rw [(reads_toLocation d.location).result_eq]
  simp [View.location?, View.range?, hindex, view_uri_eq_ok_iff.2 huri, Except.map]

/-- The answers to queries at a declaration are coherent. -/
theorem isCoherent_of_declarationAt (henv : env.IsToy budget) {said : List (Effect × Workspace)}
    (hcompile : (compile env).run ws = ⟨said, .ok program, ws'⟩)
    (hd : ((Navigation.declarationAt program source p).run ws').result = .ok (some d)) :
    ws'.IsCoherent program d ((Navigation.definition program source p).run ws').result
      ((Navigation.references program source p).run ws').result := by
  have hshows := shows_of_compile henv hcompile
  rw [(reads_declarationAt program source p).result_eq] at hd
  have hd := Except.ok.inj hd
  obtain ⟨u, hu⟩ := View.exists_unit_of_declarationAt? hd
  obtain ⟨hfind, w, hw, k, hk, hdeclares⟩ := hshows.exists_declares_of_declarationAt? hd
  have hanswers := answersFor_of_declarationAt? hu hd
  have hlisted := (reads_locateAll d (Navigation.unitsInOrder program)).result_eq ws'
  refine ⟨fun places hplaces place => ?_, fun name range hmarks => ?_, fun huris => ?_⟩
  · rw [hanswers.references, hlisted] at hplaces
    cases hfound : ws'.view.locateAll d (Navigation.unitsInOrder program) with
    | error f =>
      rw [hfound] at hplaces
      cases hplaces
    | ok found =>
      rw [hfound] at hplaces
      obtain rfl := Except.ok.inj hplaces
      exact mem_places_iff hshows hfound
  · exact hanswers.eq_of_marks hshows hfind hmarks
  · obtain ⟨found, hfound⟩ := exists_locateAll_of_marks hshows huris
    obtain ⟨range, hmarks, hbound⟩ := exists_marks_of_declares hshows hw hk hdeclares
    obtain ⟨uri, huri⟩ := huris _ _ hmarks
    refine ⟨⟨uri, range⟩, found.map fun r => ⟨r.1, r.2.range⟩, ?_, ?_,
      (mem_places_iff hshows hfound).2 ⟨_, huri, hmarks⟩⟩
    · rw [hanswers.definition, hbound uri huri]
      rfl
    · rw [hanswers.references, hlisted, hfound]
      rfl

end

/-- A workspace with two documents, the second of which uses what the first one declares. -/
def importing : Workspace :=
  { Workspace.empty with
    store := (DocumentStore.empty.track "a" (.str "toy") none "var x; x;").track "b" (.str "toy") none
      "import \"a\"; x = x;" }

/-- The declaration that is found at a position after a compilation. -/
def declarationIn (r : Run Workspace Program) (name : String) (p : Position) : Option Declaration :=
  match r.result with
  | .ok program => ((Navigation.declarationAt program name p).run r.state).result.toOption.join
  | .error _ => none

/-- The sources of a compilation. -/
def unitNames (r : Run Workspace Program) : List String :=
  match r.result with
  | .ok program => program.units.keys
  | .error _ => []

/-- The two documents are compiled, the use is found to refer to the declaration, and the sources have
URIs. -/
theorem exists_compile_importing : ∃ said program ws',
    (compile toyEnvironment).run importing = ⟨said, .ok program, ws'⟩ ∧
      ((Navigation.declarationAt program "b" ⟨0, 16⟩).run ws').result =
        .ok (some ⟨1, "x", "a", 4, 5⟩) ∧
      ∀ name, program.units.contains name = true → ∃ uri, ws'.uriFor name = .ok uri := by
  have hfound : declarationIn ((compile toyEnvironment).run importing) "b" ⟨0, 16⟩ =
      some ⟨1, "x", "a", 4, 5⟩ := by
    decide +kernel
  have hnamed : (unitNames ((compile toyEnvironment).run importing)).all (fun name =>
      (((compile toyEnvironment).run importing).state.uriFor name).toOption.isSome) = true := by
    decide +kernel
  cases hrun : (compile toyEnvironment).run importing with
  | mk said result ws' =>
    rw [hrun] at hfound hnamed
    cases result with
    | error f => cases hfound
    | ok program =>
      have hread := (reads_declarationAt program "b" ⟨0, 16⟩).result_eq ws'
      refine ⟨said, program, ws', rfl, ?_, fun name hcontains => ?_⟩
      · simp only [declarationIn, hread] at hfound
        rw [hread]
        exact congrArg Except.ok hfound
      · have hname := List.all_eq_true.1 hnamed name ((Table.contains_iff_mem_keys _ _).1 hcontains)
        cases huri : ws'.uriFor name with
        | error e => simp [huri, Except.toOption] at hname
        | ok uri => exact ⟨uri, rfl⟩

theorem isCoherent_importing : ∃ said program ws' place places,
    (compile toyEnvironment).run importing = ⟨said, .ok program, ws'⟩ ∧
      ((Navigation.declarationAt program "b" ⟨0, 16⟩).run ws').result =
        .ok (some ⟨1, "x", "a", 4, 5⟩) ∧
      ((Navigation.definition program "b" ⟨0, 16⟩).run ws').result = .ok [place] ∧
      ((Navigation.references program "b" ⟨0, 16⟩).run ws').result = .ok places ∧
      place ∈ places ∧
      ws'.IsCoherent program ⟨1, "x", "a", 4, 5⟩ (.ok [place]) (.ok places) := by
  obtain ⟨said, program, ws', hrun, hd, huris⟩ := exists_compile_importing
  have hcoherent := isCoherent_of_declarationAt (fun _ => rfl : toyEnvironment.IsToy 10) hrun hd
  obtain ⟨place, places, hdefinition, hreferences, hmem⟩ := hcoherent.contains fun name range hmarks => by
    obtain ⟨u, o, index, hu, -⟩ := hmarks
    exact huris name (by simp [Table.contains, hu])
  rw [hdefinition, hreferences] at hcoherent
  exact ⟨said, program, ws', place, places, hrun, hd, hdefinition, hreferences, hmem, hcoherent⟩

end Workspace

end LanguageServer
