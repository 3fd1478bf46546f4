import LanguageServer.Proofs.Workspace.Compiled

/-!
# What is shown of a document

What a client is shown of a document is made of the tree of its source and of what that
refers to: declarations, texts and URIs of some sources, and the failures of its imports.
Two compilations that agree on all of these show the same, whatever handles they gave and
whatever else they compiled; diagnostics of other sources must not be shown in the document,
though, and none of them must keep the diagnostics from being shown at all.

## Main definitions

* `Knowledge.findings`, `Knowledge.diagnostics` — what a compilation shows of a document.
* `Knowledge.Mirrors` — two compilations are the same on some sources, but for the handles.
* `Knowledge.keepsApart` — findings of other sources are shown elsewhere.

## Main statements

* `Knowledge.Mirrors.definition`, `Knowledge.Mirrors.highlights`, `Knowledge.Mirrors.diagnostics` —
  then they show the same of a document.
-/

namespace LanguageServer

open Workspace

/-! ## Findings of one source -/

theorem Table.filter_flatMap_entries {α β : Type} {l : List (String × α)}
    (hnodup : (l.map (·.1)).Nodup) {f : α → List β} {p : β → Bool} {n : String}
    (hp : ∀ e ∈ l, ∀ b ∈ f e.2, p b = true ↔ e.1 = n) :
    (l.flatMap fun e => f e.2).filter p = ((Table.findIn n l).map f).getD [] := by
  induction l with
  | nil => rfl
  | cons e rest ih =>
    obtain ⟨m, a⟩ := e
    obtain ⟨hnew, hrest⟩ := List.nodup_cons.1 hnodup
    have hfirst := hp _ List.mem_cons_self
    rw [List.flatMap_cons, List.filter_append,
      ih hrest fun e he => hp e (List.mem_cons_of_mem _ he), Table.findIn]
    by_cases heq : m = n
    · subst heq
      have hnone : Table.findIn m rest = none := by
        rw [← Option.not_isSome_iff_eq_none, Table.findIn_isSome_iff]
        exact hnew
      rw [hnone, if_pos rfl, List.filter_eq_self.2 fun b hb => (hfirst b hb).2 rfl]
      exact List.append_nil _
    · rw [if_neg heq, List.filter_eq_nil_iff.2 fun b hb hpb => heq ((hfirst b hb).1 hpb)]
      rfl

variable {failures : Table String ReadFailure} {reported : List SourceLocation} {m : Node}
  {f : Finding}

theorem location_of_nodeFailure? (h : nodeFailure? failures reported m = some f) :
    f.location = some m.location ∧ f.related = [] := by
  simp only [nodeFailure?, Option.bind_eq_bind, Option.bind_eq_some_iff] at h
  obtain ⟨path, -, h⟩ := h
  split at h
  · cases h
  · obtain ⟨failure, -, h⟩ := Option.bind_eq_some_iff.1 h
    obtain rfl := Option.some.inj h
    exact ⟨rfl, rfl⟩

theorem nodeFailure?_rename (ρ : Int → Int) :
    nodeFailure? failures reported (m.rename ρ) = nodeFailure? failures reported m := by
  simp only [nodeFailure?, Node.label_rename, Node.location_rename]
  rfl

/-- The imports of one source that were not served. -/
theorem filter_importFailures {ws : Workspace} {p : Program} (hp : p.IsFormed) (n : String) :
    (ws.importFailures p).filter (·.liesIn n) =
      ((p.units.find? n).map fun u => u.root.walk.filterMap
        (nodeFailure? ws.readFailures (p.findings.filterMap (·.location)))).getD [] := by
  unfold importFailures Table.values
  rw [List.flatMap_map]
  refine Table.filter_flatMap_entries hp.nodup (n := n) (f := fun u : CompiledUnit =>
    u.root.walk.filterMap (nodeFailure? ws.readFailures (p.findings.filterMap (·.location))))
    fun e he f hf => ?_
  obtain ⟨m, hm, hfailure⟩ := List.mem_filterMap.1 hf
  have hsource := hp.located e.1 e.2 (Table.find?_of_mem_entries hp.nodup he) m
    (Node.walk_eq_preorder e.2.root ▸ hm)
  simp [Finding.liesIn, (location_of_nodeFailure? hfailure).1, hsource]

/-- Nothing is listed anew. -/
theorem mem_of_mem_distinctPlaces {seen : List SourceLocation} {l : List Occurrence} {o : Occurrence}
    (h : o ∈ distinctPlaces seen l) : o ∈ l := by
  induction l generalizing seen with
  | nil => exact h
  | cons x rest ih =>
    unfold distinctPlaces at h
    split at h
    · exact List.mem_cons_of_mem _ (ih h)
    · rcases List.mem_cons.1 h with rfl | h
      · exact List.mem_cons_self
      · exact List.mem_cons_of_mem _ (ih h)

/-- Only places in a unit are listed of it. -/
theorem source_of_mem_occurrences {d : Declaration} {u : CompiledUnit} {o : Occurrence}
    (h : o ∈ occurrences d u) : o.location.source = u.source := by
  have hfound := mem_of_mem_distinctPlaces (List.mem_mergeSort.1 h)
  simpa using (List.mem_filter.1 hfound).2

/-! ## What is shown in one document -/

namespace View

/-- Whether a finding is shown in another document, or nowhere. -/
def showsElsewhere (v : View) (reporter uri : String) (f : Finding) : Bool :=
  match v.diagnostic? reporter f, f.location with
  | .ok (some _), some l =>
    match v.uri l.source with
    | .ok other => other != uri
    | .error _ => false
  | .ok _, _ => true
  | .error _, _ => false

variable {v v' : View} {reporter uri n : String} {l : List Finding} {t t' : DiagnosticTable}

theorem diagnosticsOf_insert (t : DiagnosticTable) (other uri : String) (d : List Diagnostic) :
    diagnosticsOf (t.insert other d) uri = if other = uri then d else diagnosticsOf t uri := by
  unfold diagnosticsOf
  rw [Table.find?_insert]
  split <;> rfl

/-- Only the findings of a source matter for a document if all others are shown elsewhere. -/
theorem diagnosticsOf_sorted
    (h : ∀ f ∈ l, f.liesIn n = true ∨ v.showsElsewhere reporter uri f = true)
    (ht : diagnosticsOf t uri = diagnosticsOf t' uri) :
    (v.sorted reporter t l).2.map (diagnosticsOf · uri) =
      (v.sorted reporter t' (l.filter (·.liesIn n))).2.map (diagnosticsOf · uri) := by
  induction l generalizing t t' with
  | nil => exact congrArg Except.ok ht
  | cons f rest ih =>
    have hrest := fun g hg => h g (List.mem_cons_of_mem _ hg)
    by_cases hlies : f.liesIn n = true
    · rw [List.filter_cons, if_pos hlies]
      unfold sorted
      cases v.diagnostic? reporter f with
      | error e => rfl
      | ok d =>
        cases d with
        | none => exact ih hrest ht
        | some d =>
          cases f.location with
          | none => exact ih hrest ht
          | some place =>
            simp only
            cases v.uri place.source with
            | error e => rfl
            | ok other =>
              refine ih hrest ?_
              rw [diagnosticsOf_insert, diagnosticsOf_insert]
              split
              · next heq => rw [heq, ht]
              · exact ht
    · have hshown := (h f List.mem_cons_self).resolve_left hlies
      rw [List.filter_cons, if_neg hlies, sorted]
      unfold showsElsewhere at hshown
      cases hd : v.diagnostic? reporter f with
      | error e => simp [hd] at hshown
      | ok d =>
        cases d with
        | none => exact ih hrest ht
        | some d =>
          cases hl : f.location with
          | none => exact ih hrest ht
          | some place =>
            simp only [hd, hl] at hshown ⊢
            cases huri : v.uri place.source with
            | error e => simp [huri] at hshown
            | ok other =>
              simp only [huri, bne_iff_ne] at hshown
              refine ih hrest ?_
              rw [diagnosticsOf_insert, if_neg hshown]
              exact ht

/-- Findings that become the same diagnostics, in the same documents, are sorted in the same way. -/
theorem sorted_congr (hdiagnostic : ∀ f ∈ l, v'.diagnostic? reporter f = v.diagnostic? reporter f)
    (huri : ∀ f ∈ l, ∀ place, f.location = some place → v'.uri place.source = v.uri place.source)
    (t : DiagnosticTable) : v'.sorted reporter t l = v.sorted reporter t l := by
  induction l generalizing t with
  | nil => rfl
  | cons f rest ih =>
    have hrest := ih (fun g hg => hdiagnostic g (List.mem_cons_of_mem _ hg))
      fun g hg => huri g (List.mem_cons_of_mem _ hg)
    unfold sorted
    rw [hdiagnostic f List.mem_cons_self]
    cases v.diagnostic? reporter f with
    | error e => rfl
    | ok d =>
      cases hl : f.location with
      | none => simp only [hrest]
      | some place =>
        have hplace := huri f List.mem_cons_self place hl
        cases d <;> simp only [hrest, hplace]

end View

namespace Knowledge

/-- All findings of a compilation: what the engine found, then the imports that were not served. -/
def findings (k : Knowledge) : List Finding :=
  k.program.findings ++ (Workspace.empty.absorb k).importFailures k.program

/-- The diagnostics that a compilation yields for a document. -/
def diagnostics (reporter : String) (k : Knowledge) (uri : String) : Except Fault (List Diagnostic) :=
  (k.view.sorted reporter .empty k.findings).2.map (diagnosticsOf · uri)

/-- Whether all that is found in other sources than one is shown in other documents than one, or
nowhere. -/
def keepsApart (reporter : String) (k : Knowledge) (n uri : String) : Bool :=
  k.findings.all fun f => f.liesIn n || k.view.showsElsewhere reporter uri f

/-- A finding lies in a source that was compiled. -/
theorem exists_liesIn {k : Knowledge} (hformed : k.program.IsFormed) {f : Finding}
    (hf : f ∈ k.findings) : ∃ n, k.program.units.contains n = true ∧ f.liesIn n = true := by
  rcases List.mem_append.1 hf with hf | hf
  · exact hformed.found f hf
  · obtain ⟨u, hu, hf⟩ := List.mem_flatMap.1 hf
    obtain ⟨e, he, rfl⟩ := List.mem_map.1 hu
    obtain ⟨m, hm, hfailure⟩ := List.mem_filterMap.1 hf
    have hfind := Table.find?_of_mem_entries hformed.nodup he
    refine ⟨e.1, by simp [Table.contains, hfind], ?_⟩
    simp [Finding.liesIn, (location_of_nodeFailure? hfailure).1,
      hformed.located e.1 e.2 hfind m (Node.walk_eq_preorder e.2.root ▸ hm)]

/-- Two compilations are the same on the sources of a renaming, but for the handles. -/
structure Mirrors (r : Renaming) (k k' : Knowledge) : Prop where
  program : k.program.Mirrors r k'.program
  formed : k.program.IsFormed
  formed' : k'.program.IsFormed
  index : ∀ n, r.Near n → k'.view.index n = k.view.index n
  uri : ∀ n, r.Near n → k'.view.uri n = k.view.uri n
  failure : ∀ n, r.Near n → ∀ u, k.program.units.find? n = some u → ∀ m ∈ u.root.preorder,
    ∀ path, m.label.importPath = some path →
      k'.readFailures.find? (importKey m.label path) = k.readFailures.find? (importKey m.label path)

namespace Mirrors

variable {r : Renaming} {k k' : Knowledge} {n : String}

/-! ## Answers -/

theorem range? (h : k.Mirrors r k') {l : SourceLocation} (hl : r.Near l.source) :
    k'.view.range? l = k.view.range? l := by
  unfold View.range?
  rw [h.index _ hl]

theorem location? (h : k.Mirrors r k') {l : SourceLocation} (hl : r.Near l.source) :
    k'.view.location? l = k.view.location? l := by
  unfold View.location?
  rw [h.range? hl, h.uri _ hl]

/-- A place leads to the same declaration. -/
theorem declarationAt? (h : k.Mirrors r k') (hn : r.Near n) (p : Position) :
    k'.view.declarationAt? k'.program n p =
        (k.view.declarationAt? k.program n p).map r.declaration ∧
      ∀ d, k.view.declarationAt? k.program n p = some d → r.Knows d := by
  have hoffset : k'.view.offset? n p = k.view.offset? n p := by
    unfold View.offset?
    rw [h.index n hn]
  unfold View.declarationAt? View.nodeAt?
  rw [h.program.unit n hn, hoffset]
  cases hu : k.program.units.find? n with
  | none => exact ⟨rfl, fun _ => nofun⟩
  | some u =>
    cases k.view.offset? n p with
    | none => exact ⟨rfl, fun _ => nofun⟩
    | some offset =>
      have hnode := innermost_rename r.handle u.root offset
      show Option.bind (innermost (u.root.rename r.handle) offset) _ = _ ∧ _
      rw [hnode]
      cases hm : innermost u.root offset with
      | none => exact ⟨by simp [hm], fun d hd => by simp [hm] at hd⟩
      | some m =>
        have hcovered := h.program.covered n hn u hu m (mem_of_innermost hm)
        obtain ⟨hdeclaration, hknows⟩ := h.program.declarationOf? hcovered
        exact ⟨by simpa [hm] using hdeclaration, fun d hd => hknows d (by simpa [hm] using hd)⟩

/-- The symbol at a place is declared at the same place. -/
theorem definition (h : k.Mirrors r k') (hn : r.Near n) (p : Position) :
    k'.view.definition k'.program n p = k.view.definition k.program n p := by
  obtain ⟨hdeclaration, hknows⟩ := h.declarationAt? hn p
  unfold View.definition
  rw [hdeclaration]
  cases hd : k.view.declarationAt? k.program n p with
  | none => rfl
  | some d =>
    show (k'.view.location? d.location).map _ = (k.view.location? d.location).map _
    rw [h.location? (hknows d hd).near]

/-- The symbol at a place occurs at the same places of its source. -/
theorem highlights (h : k.Mirrors r k') (hn : r.Near n) (p : Position) :
    k'.view.highlights k'.program n p = k.view.highlights k.program n p := by
  obtain ⟨hdeclaration, hknows⟩ := h.declarationAt? hn p
  unfold View.highlights
  rw [hdeclaration, h.program.unit n hn]
  cases hd : k.view.declarationAt? k.program n p with
  | none => rfl
  | some d =>
    cases hu : k.program.units.find? n with
    | none => rfl
    | some u =>
      have hsame := occurrences_rename (hknows d hd).covers (h.program.covered n hn u hu)
      show k'.view.highlightAll (occurrences (r.declaration d) (u.rename r.handle)) = _
      rw [hsame]
      refine List.filterMap_congr fun o ho => ?_
      have hnear : r.Near o.location.source := by
        rw [source_of_mem_occurrences ho, h.formed.source n u hu]
        exact hn
      rw [h.range? hnear]

/-! ## Diagnostics -/

theorem reported_iff (h : k.Mirrors r k') {l : SourceLocation} (hl : r.Near l.source) :
    (k'.program.findings.filterMap (·.location)).contains l =
      (k.program.findings.filterMap (·.location)).contains l := by
  have hmem (p : Program) : (p.findings.filterMap (·.location)).contains l = true ↔
      ∃ f ∈ p.findings.filter (·.liesIn l.source), f.location = some l := by
    simp only [List.contains_iff_mem, List.mem_filterMap, List.mem_filter, and_assoc]
    refine exists_congr fun f => and_congr_right fun _ => ⟨fun hf => ⟨?_, hf⟩, fun hf => hf.2⟩
    simp [Finding.liesIn, hf]
  rw [Bool.eq_iff_iff, hmem, hmem, h.program.found _ hl]

/-- The same is found in a source. -/
theorem filter_findings (h : k.Mirrors r k') (hn : r.Near n) :
    k'.findings.filter (·.liesIn n) = k.findings.filter (·.liesIn n) := by
  unfold findings
  rw [List.filter_append, List.filter_append, h.program.found n hn, filter_importFailures h.formed,
    filter_importFailures h.formed', h.program.unit n hn]
  congr 1
  cases hu : k.program.units.find? n with
  | none => rfl
  | some u =>
    simp only [Option.map_some, Option.getD_some, CompiledUnit.rename, Node.walk_rename,
      List.filterMap_map]
    refine List.filterMap_congr fun m hm => ?_
    rw [Node.walk_eq_preorder] at hm
    have hreported := h.reported_iff (l := m.location) (h.formed.located n u hu m hm ▸ hn)
    rw [Function.comp_apply, nodeFailure?_rename]
    unfold nodeFailure?
    cases hpath : m.label.importPath with
    | none => rfl
    | some path =>
      have hfailure := h.failure n hn u hu m hm path hpath
      simp only [Option.bind_eq_bind, Option.bind_some, hreported]
      show (if _ then none else (k'.readFailures.find? _).bind _) =
        if _ then none else (k.readFailures.find? _).bind _
      rw [hfailure]

/-- What is found in a source points only to sources of the renaming. -/
theorem concerns (h : k.Mirrors r k') (hn : r.Near n) :
    ∀ f ∈ k.findings, f.liesIn n = true → r.Concerns n f := by
  intro f hf hlies
  rcases List.mem_append.1 hf with hf | hf
  · exact h.program.concerns n hn f hf hlies
  · obtain ⟨u, -, hf⟩ := List.mem_flatMap.1 hf
    obtain ⟨m, -, hfailure⟩ := List.mem_filterMap.1 hf
    exact ⟨hlies, by simp [(location_of_nodeFailure? hfailure).2]⟩

/-- A finding becomes the same diagnostic. -/
theorem diagnostic? (h : k.Mirrors r k') (reporter : String) (hn : r.Near n) {f : Finding}
    (hf : r.Concerns n f) : k'.view.diagnostic? reporter f = k.view.diagnostic? reporter f := by
  obtain ⟨l, hl, hsource⟩ : ∃ l, f.location = some l ∧ l.source = n := by
    simpa [Finding.liesIn, Option.any_eq_true] using hf.lies
  have hrelated (places : List RelatedPlace) (hplaces : ∀ p ∈ places, r.Near p.location.source) :
      k'.view.relatedAll places = k.view.relatedAll places := by
    induction places with
    | nil => rfl
    | cons p rest ih =>
      unfold View.relatedAll
      rw [h.location? (hplaces p List.mem_cons_self),
        ih fun q hq => hplaces q (List.mem_cons_of_mem _ hq)]
  unfold View.diagnostic?
  rw [hl]
  simp only
  rw [h.range? (hsource ▸ hn), hrelated f.related hf.near]

/-- A document has the same diagnostics, unless something else is shown in it. -/
theorem diagnostics (h : k.Mirrors r k') (hn : r.Near n) {reporter uri : String}
    (hapart : k.keepsApart reporter n uri = true) (hapart' : k'.keepsApart reporter n uri = true) :
    k'.diagnostics reporter uri = k.diagnostics reporter uri := by
  have hfindings {k : Knowledge} (hapart : k.keepsApart reporter n uri = true) :
      k.diagnostics reporter uri =
        (k.view.sorted reporter .empty (k.findings.filter (·.liesIn n))).2.map
          (diagnosticsOf · uri) :=
    View.diagnosticsOf_sorted (fun f hf => by simpa using List.all_eq_true.1 hapart f hf) rfl
  rw [hfindings hapart, hfindings hapart', h.filter_findings hn]
  rw [View.sorted_congr (fun f hf => ?_) fun f hf place hplace => ?_]
  · obtain ⟨hf, hlies⟩ := List.mem_filter.1 hf
    exact h.diagnostic? reporter hn (h.concerns hn f hf hlies)
  · have hsource : place.source = n := by
      simpa [Finding.liesIn, hplace] using (List.mem_filter.1 hf).2
    rw [hsource, h.uri n hn]

/-- If nothing else is compiled, then other findings are shown elsewhere if they were before. -/
theorem keepsApart (h : k.Mirrors r k')
    (hwithin : ∀ m, k'.program.units.contains m = true → r.Near m) {reporter uri : String}
    (hapart : k.keepsApart reporter n uri = true) : k'.keepsApart reporter n uri = true := by
  refine List.all_eq_true.2 fun f hf => ?_
  obtain ⟨m, hcompiled, hlies⟩ := exists_liesIn h.formed' hf
  have hm := hwithin m hcompiled
  have hmem : f ∈ k.findings.filter (·.liesIn m) :=
    h.filter_findings hm ▸ List.mem_filter.2 ⟨hf, hlies⟩
  have hold := List.all_eq_true.1 hapart f (List.mem_filter.1 hmem).1
  have hdiagnostic := h.diagnostic? reporter hm (h.concerns hm f (List.mem_filter.1 hmem).1 hlies)
  obtain ⟨l, hl, rfl⟩ : ∃ l, f.location = some l ∧ l.source = m := by
    simpa [Finding.liesIn, Option.any_eq_true] using hlies
  simp only [View.showsElsewhere, hdiagnostic, hl] at hold ⊢
  cases hd : k.view.diagnostic? reporter f with
  | error e => simpa only [hd] using hold
  | ok d =>
    cases d with
    | none => simpa only [hd] using hold
    | some d => simpa only [hd, h.uri l.source hm] using hold

end Mirrors

end Knowledge

end LanguageServer
