import LanguageServer.Proofs.Toy.Respelling
import LanguageServer.Proofs.Workspace.Handing

/-!
# What is shown of displaced places

If a compilation finds the same at other offsets, and translates these to the same positions,
then it shows the same: the same diagnostics of every document, and the same definitions in
every source that keeps its offsets.

## Main definitions

* `View.Displaced` — a view shows at other offsets what another one shows.
* `Knowledge.Displaced` — what is known from a compilation is the same at other offsets.

## Main statements

* `Knowledge.Displaced.diagnostics` — the diagnostics are the same.
* `Knowledge.Displaced.definition` — so are the definitions.
* `Workspace.exists_displaced` — texts that are spelt in another way are compiled to the same at other
  offsets.
-/

namespace LanguageServer

open Workspace

variable {φ : Shift}

/-! ## Views -/

/-- A view shows at other offsets what another one shows. -/
structure View.Displaced (φ : Shift) (v v' : View) : Prop where
  range? : ∀ l, v'.range? (l.shift φ) = v.range? l
  uri : v'.uri = v.uri

namespace View.Displaced

variable {v v' : View}

theorem location? (h : v.Displaced φ v') (l : SourceLocation) :
    v'.location? (l.shift φ) = v.location? l := by
  unfold View.location?
  rw [h.range?, h.uri, SourceLocation.source_shift]

theorem relatedAll (h : v.Displaced φ v') (l : List RelatedPlace) :
    v'.relatedAll (l.map (·.shift φ)) = v.relatedAll l := by
  induction l with
  | nil => rfl
  | cons r rest ih =>
    have hplace : v'.location? (r.shift φ).location = v.location? r.location := h.location? r.location
    rw [List.map_cons, View.relatedAll, hplace, ih]
    rfl

/-- A finding becomes the same diagnostic. -/
theorem diagnostic? (h : v.Displaced φ v') (reporter : String) (f : Finding) :
    v'.diagnostic? reporter (f.shift φ) = v.diagnostic? reporter f := by
  unfold View.diagnostic? Finding.shift
  cases f.location with
  | none => rfl
  | some l =>
    simp only [Option.map_some, h.range?, h.relatedAll]

/-- Findings are sorted alike. -/
theorem sorted (h : v.Displaced φ v') (reporter : String) (t : DiagnosticTable) (l : List Finding) :
    v'.sorted reporter t (l.map (·.shift φ)) = v.sorted reporter t l := by
  induction l generalizing t with
  | nil => rfl
  | cons f rest ih =>
    rw [List.map_cons, View.sorted, View.sorted, h.diagnostic?, h.uri]
    have hlocation : (f.shift φ).location = f.location.map (·.shift φ) := rfl
    rw [hlocation]
    cases v.diagnostic? reporter f with
    | error e => rfl
    | ok d =>
      cases f.location with
      | none =>
        simp only [Option.map_none, ih]
        rfl
      | some l =>
        simp only [Option.map_some, ih]
        cases d <;> rfl

end View.Displaced

/-! ## Imports that were not served -/

/-- An import that was not served is found at its other offsets. -/
theorem nodeFailure?_shift (failures : Table String ReadFailure) (reported : List SourceLocation)
    (m : Node) :
    nodeFailure? failures (reported.map (·.shift φ)) (m.shift φ) =
      (nodeFailure? failures reported m).map (·.shift φ) := by
  have hreported : (reported.map (·.shift φ)).contains (m.location.shift φ) =
      reported.contains m.location := by
    rw [Bool.eq_iff_iff, List.contains_iff_mem, List.contains_iff_mem]
    exact List.mem_map_of_injective (SourceLocation.shift_injective φ)
  simp only [nodeFailure?, Node.label_shift, Node.location_shift, hreported]
  simp only [NodeLabel.shift, importKey]
  cases m.label.importPath with
  | none => rfl
  | some path =>
    simp only [Option.bind_eq_bind, Option.bind_some]
    split
    · rfl
    · cases failures.find? _ <;> rfl

theorem importFailures_shift {ws ws' : Workspace} (h : ws'.readFailures = ws.readFailures)
    (p : Program) : ws'.importFailures (p.shift φ) = (ws.importFailures p).map (·.shift φ) := by
  have hreported : (p.shift φ).findings.filterMap (·.location) =
      (p.findings.filterMap (·.location)).map (·.shift φ) := by
    simp only [Program.shift, List.filterMap_map, List.map_filterMap]
    rfl
  have hvalues : (p.shift φ).units.values = p.units.values.map (·.shift φ) := by
    simp only [Program.shift, Table.values, Table.mapValues, List.map_map]
    rfl
  unfold importFailures
  simp only [h, hreported, hvalues, List.flatMap_map, List.map_flatMap, CompiledUnit.shift,
    Node.walk_shift, List.filterMap_map, Function.comp_def, nodeFailure?_shift]
  simp only [List.map_filterMap]

/-! ## Compilations -/

namespace Knowledge

/-- What is known from a compilation is the same at other offsets. -/
structure Displaced (φ : Shift) (k k' : Knowledge) : Prop where
  program : k'.program = k.program.shift φ
  view : k.view.Displaced φ k'.view
  index : ∀ n, φ.map n = id → k'.view.index n = k.view.index n
  readFailures : k'.readFailures = k.readFailures

namespace Displaced

variable {k k' : Knowledge}

theorem findings (h : k.Displaced φ k') : k'.findings = k.findings.map (·.shift φ) := by
  have hfailures := importFailures_shift (φ := φ)
    (show (Workspace.empty.absorb k').readFailures = (Workspace.empty.absorb k).readFailures from
      h.readFailures) k.program
  rw [Knowledge.findings, Knowledge.findings, h.program, hfailures, List.map_append]
  rfl

/-- All documents have the same diagnostics. -/
theorem diagnostics (h : k.Displaced φ k') (reporter uri : String) :
    k'.diagnostics reporter uri = k.diagnostics reporter uri := by
  rw [Knowledge.diagnostics, Knowledge.diagnostics, h.findings, h.view.sorted]

/-- A symbol in a source that keeps its offsets is declared at the same positions. -/
theorem definition (h : k.Displaced φ k') (hformed : k.program.IsFormed) {n : String}
    (hn : φ.map n = id) (p : Position) :
    k'.view.definition k'.program n p = k.view.definition k.program n p := by
  have hnode : k'.view.nodeAt? k'.program n p = k.view.nodeAt? k.program n p := by
    have hoffset : k'.view.offset? n p = k.view.offset? n p := by
      unfold View.offset?
      rw [h.index n hn]
    unfold View.nodeAt?
    rw [h.program, Program.find?_units_shift, hoffset]
    cases hu : k.program.units.find? n with
    | none => rfl
    | some u => rw [Option.map_some, hformed.shift_eq_self hn hu]
  have hdeclaration : k'.view.declarationAt? k'.program n p =
      (k.view.declarationAt? k.program n p).map (·.shift φ) := by
    unfold View.declarationAt?
    rw [hnode, h.program, Option.map_bind]
    exact congrArg _ (funext fun m => Program.declarationOf?_shift rfl rfl)
  unfold View.definition
  rw [hdeclaration]
  cases k.view.declarationAt? k.program n p with
  | none => rfl
  | some d => exact congrArg (Except.map _) (h.view.location? d.location)

end Displaced

end Knowledge

/-! ## Texts that are spelt in another way -/

namespace Workspace

open Toy

variable {env : Environment} {budget : Nat} {ws ws' : Workspace} {k : Knowledge}
  {uris sources sources' : Table String String} {name text : String}

theorem reaches_congr (hkeys : sources'.keys = sources.keys) : Reaches sources' = Reaches sources := by
  have hcontains (n : String) : sources'.contains n = sources.contains n := by
    rw [Bool.eq_iff_iff, Table.contains_iff_mem_keys, Table.contains_iff_mem_keys, hkeys]
  funext x
  simp only [Reaches, hcontains]

/-- What is read was not handed over. -/
theorem contains_eq_false_of_read {exchanges : List Exchange}
    (h : (readTextsOf sources .empty exchanges).find? name = some text) :
    sources.contains name = false := by
  obtain ⟨x, -, hreach, rfl, -⟩ := (exists_of_find?_readTextsOf h).resolve_left (by simp)
  simp only [Reaches, Bool.and_eq_true, Bool.not_eq_true'] at hreach
  exact hreach.2

theorem index_knowledgeOf (uris sources : Table String String) (exchanges : List Exchange)
    (program : Program) (n : String) :
    (knowledgeOf uris sources exchanges program).view.index n =
      (((readTextsOf sources .empty exchanges).find? n).or (sources.find? n)).map LineIndex.ofString :=
  congrArg (Option.map _) (Table.find?_foldl_insert (nodup_readTextsOf sources exchanges) sources n)

/-- If the texts that are handed over are spelt in another way and hold everything at the same
positions, then the same is found at other offsets. -/
theorem exists_displaced (henv : env.IsToy budget) (hlearn : ws.learn env = .ok k)
    (hnames : nameDocuments .empty .empty ws.store.toList = (uris, .ok sources))
    (hnames' : nameDocuments .empty .empty ws'.store.toList = (uris, .ok sources'))
    (hrespelled : (ws.origin env sources).Respelled φ (ws'.origin env sources'))
    (hstill : ∀ n, φ.map n = id → sources'.find? n = sources.find? n)
    (hpositions : ∀ n t t', sources.find? n = some t → sources'.find? n = some t' → ∀ offset,
      (LineIndex.ofString t').positionAt (φ.offset n offset) = (LineIndex.ofString t).positionAt offset) :
    ∃ k', ws'.learn env = .ok k' ∧ k.Displaced φ k' := by
  obtain ⟨_, exchanges, g, hgathered⟩ := exists_isGathered henv hlearn
  obtain ⟨-, hown⟩ := Prod.mk.inj (hnames.symm.trans hgathered.named)
  obtain rfl := Except.ok.inj hown
  obtain ⟨steps, hsteps, hgathers⟩ := hgathered.gathers
  obtain ⟨g', hgathers', hend⟩ := hgathers.respelled hrespelled.rules (.start hrespelled)
  have hinquire' : ws'.inquire env sources' = (exchanges, .ok (bindAll g')) :=
    (inquire_eq_ok_iff henv).2 ⟨g', rfl, steps, hsteps, hgathers'⟩
  have hreaches : Reaches sources' = Reaches sources := reaches_congr hrespelled.keys
  have htexts : readTextsOf sources' .empty exchanges = readTextsOf sources .empty exchanges := by
    simp only [readTextsOf, hreaches]
  have hfailures : readFailuresOf sources' .empty exchanges = readFailuresOf sources .empty exchanges := by
    simp only [readFailuresOf, hreaches]
  obtain rfl : knowledgeOf uris sources exchanges (bindAll g) = k :=
    Except.ok.inj ((learn_of_inquire hnames (hgathered.inquire henv)).symm.trans hlearn)
  have hindex (n : String) (hn : φ.map n = id) :
      (knowledgeOf uris sources' exchanges (bindAll g')).view.index n =
        (knowledgeOf uris sources exchanges (bindAll g)).view.index n := by
    rw [index_knowledgeOf, index_knowledgeOf, htexts, hstill n hn]
  refine ⟨_, learn_of_inquire hnames' hinquire', hend.bindAll, ⟨fun l => ?_, rfl⟩, hindex, hfailures⟩
  -- A source that does not keep its offsets was handed over, so nothing was read for it.
  by_cases hl : φ.map l.source = id
  · unfold View.range?
    rw [SourceLocation.source_shift, hindex l.source hl, SourceLocation.shift_eq_self hl]
  · have hgiven : sources.contains l.source = true := by
      by_contra hnot
      exact hl (hrespelled.still l.source (Bool.eq_false_iff.2 hnot))
    obtain ⟨t, ht⟩ := Option.isSome_iff_exists.1 hgiven
    obtain ⟨t', ht'⟩ := Option.isSome_iff_exists.1 ((Table.contains_iff_mem_keys sources' _).2
      (hrespelled.keys ▸ (Table.contains_iff_mem_keys sources _).1 hgiven))
    have hread : (readTextsOf sources .empty exchanges).find? l.source = none := by
      by_contra hnot
      obtain ⟨text, htext⟩ := Option.ne_none_iff_exists'.1 hnot
      rw [contains_eq_false_of_read htext] at hgiven
      cases hgiven
    have hplace := hpositions l.source t t' ht ht'
    unfold View.range?
    rw [SourceLocation.source_shift, index_knowledgeOf, index_knowledgeOf, htexts, hread,
      Option.none_or, Option.none_or, ht, ht']
    show some (Range.mk _ _) = some (Range.mk _ _)
    simp only [SourceLocation.shift, hplace]

end Workspace

end LanguageServer
