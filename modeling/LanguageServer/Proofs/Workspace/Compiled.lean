import LanguageServer.Proofs.Toy.Mirror
import LanguageServer.Proofs.Workspace.Gathered

/-!
# What is known of compiled sources

After a compilation the server sees a tree for each source that was gathered, translates
places in the text of that source, and knows why an import was not served.  All of this is
what the origin of the sources says.

## Main definitions

* `Origin.failure?` — why a source is not served.
* `Origin.Yields` — the tree of a source, as far as places and imports go.

## Main statements

* `Gathering.yields_bindAll`, `Gathering.isFormed_bindAll` — the trees of a program.
* `Workspace.IsGathered.find?_sources`, `Workspace.IsGathered.find?_readFailures` — what else is
  known.
-/

namespace LanguageServer

theorem normalisePath_ne_empty (s : String) : normalisePath s ≠ "" := by
  unfold normalisePath Path.toString
  simp only
  split
  · decide
  · next hne =>
    intro heq
    exact hne (by rw [heq]; rfl)

/-- The failure in an answer, if it is one. -/
def failureOf? : ReadOutcome → Option ReadFailure
  | .ok _ => none
  | .error failure => some failure

namespace Toy

open Workspace

/-- Only an empty path leads to the source without a name. -/
theorem eq_empty_of_resolveImport {rules : List Remapping} {importer path : String}
    (h : resolveImport rules importer path = "") : path = "" := by
  simp only [resolveImport] at h
  split at h
  · exact absurd h (normalisePath_ne_empty _)
  · unfold remapPath at h
    split at h
    · exact h
    · exact absurd h (normalisePath_ne_empty _)

/-- The failures of an import are kept under the name of the source that it leads to.  An import without
a path leads to the source without a name. -/
theorem importKey_eq {rules : List Remapping} {importer path : String} {label : NodeLabel}
    (h : label.importedSource = some (resolveImport rules importer path)) :
    importKey label path = resolveImport rules importer path := by
  simp only [importKey, h]
  split
  · next hempty =>
    have hresolved : resolveImport rules importer path = "" := by simpa using hempty
    rw [hresolved, eq_empty_of_resolveImport hresolved]
  · rfl

/-! ## Trees -/

/-- Why a source is not served, if that is so. -/
def Origin.failure? (o : Origin) (n : String) : Option ReadFailure :=
  match o.sources.find? n, o.answer sourceKind n with
  | none, .ok outcome => failureOf? outcome
  | _, _ => none

/-- What the server sees of a source: its nodes lie in it, and its imports are those that it has. -/
structure Origin.Yields (o : Origin) (n : String) (u : CompiledUnit) : Prop where
  source : u.source = n
  located : ∀ m ∈ u.root.preorder, m.location.source = n
  imports : ∀ m ∈ u.root.preorder, ∀ path, m.label.importPath = some path →
    importKey m.label path ∈ o.imports n

theorem mem_bindItems {source : String} {imported globals : Scope} {c : Checker} {items : List Item}
    {path : String} {span : Span} {target : Option String}
    (h : .importing path span target ∈ (c.bindItems source imported globals items).2) :
    .importing path span target ∈ items := by
  induction items generalizing c with
  | nil => exact h
  | cons i rest ih =>
    rcases List.mem_cons.1 h with heq | h
    · cases i with
      | importing path' span' target' => exact heq ▸ List.mem_cons_self
      | function f => cases heq
      | statement s => cases heq
    · exact List.mem_cons_of_mem _ (ih h)

/-- The imports of a source are those that it spells, resolved. -/
theorem Origin.mem_items_unit {o : Origin} {n path : String} {span : Span} {target : Option String}
    (h : .importing path span target ∈ (o.unit n).items) :
    target = some (resolveImport o.rules n path) ∧
      ∃ spelled, .importing path span spelled ∈ (o.alone n).1.items := by
  obtain ⟨i, hi, heq⟩ := List.mem_map.1 h
  have hsource : (o.alone n).1.source = n := o.source_unit n
  cases i with
  | importing path' span' spelled =>
    simp only [Item.resolved, Item.importing.injEq] at heq
    obtain ⟨rfl, rfl, rfl⟩ := heq
    exact ⟨by rw [hsource], spelled, hi⟩
  | function f => cases heq
  | statement s => cases heq

/-- New handles leave the imports of a unit as they are. -/
theorem SourceFile.mem_items_of_relabel {u : SourceFile} {ρ : Int → Int} {path : String} {span : Span}
    {target : Option String} (h : .importing path span target ∈ (u.relabel ρ).items) :
    .importing path span target ∈ u.items := by
  obtain ⟨i, hi, heq⟩ := List.mem_map.1 h
  cases i with
  | importing path' span' target' =>
    obtain ⟨rfl, rfl, rfl⟩ := Item.importing.inj heq
    exact hi
  | function f => cases heq
  | statement s => cases s <;> cases heq

namespace Gathering

variable {o : Origin} {place : String → Int} {exchanges : List Exchange} {g : Gathering}

/-- An import directive leads to the source that its path is resolved to, which its unit imports. -/
theorem importedSource_bindAll (h : IsComplete o place exchanges g) {n : String} {u : CompiledUnit}
    (hu : (bindAll g).units.find? n = some u) {m : Node} (hm : m ∈ u.root.preorder) {path : String}
    (hpath : m.label.importPath = some path) :
    m.label.importedSource = some (resolveImport o.rules n path) ∧
      resolveImport o.rules n path ∈ o.imports n := by
  obtain ⟨w, c, hw, rfl⟩ := exists_bind_of_bindAll h.places.nodup hu
  obtain ⟨hcontains, rfl⟩ := h.places.eq_of_find? hw
  obtain ⟨span, target, hitem, rfl⟩ := SourceFile.exists_importing_of_mem_preorder hm hpath
  have hitem := SourceFile.mem_items_of_relabel (mem_bindItems hitem)
  obtain ⟨rfl, -⟩ := Origin.mem_items_unit hitem
  refine ⟨rfl, ?_⟩
  rw [Origin.imports, if_pos (h.follows.has (h.follows.units n hcontains))]
  exact List.mem_filterMap.2 ⟨_, hitem, rfl⟩

/-- The trees of a program are those of the sources that were gathered. -/
theorem yields_bindAll (h : IsComplete o place exchanges g) {n : String} {u : CompiledUnit}
    (hu : (bindAll g).units.find? n = some u) : g.units.contains n = true ∧ o.Yields n u := by
  have himports (m : Node) (hm : m ∈ u.root.preorder) (path : String)
      (hpath : m.label.importPath = some path) := importedSource_bindAll h hu hm hpath
  obtain ⟨w, c, hw, rfl⟩ := exists_bind_of_bindAll h.places.nodup hu
  obtain ⟨hcontains, rfl⟩ := h.places.eq_of_find? hw
  have hsource : (((o.unit n).relabel (· + place n)).bind g.units c).2.source = n := o.source_unit n
  refine ⟨hcontains, hsource, fun m hm => ?_, fun m hm path hpath => ?_⟩
  · rcases SourceFile.mem_preorder_toUnit hm with hplain | ⟨path, span, target, -, rfl⟩
    · exact hplain.source.trans hsource
    · exact hsource
  · obtain ⟨hleads, hmem⟩ := himports m hm path hpath
    exact importKey_eq hleads ▸ hmem

/-- What was found lies in sources that were gathered. -/
theorem exists_liesIn_bindAll (h : IsComplete o place exchanges g) :
    ∀ f ∈ (bindAll g).findings, ∃ n, g.units.contains n = true ∧ f.liesIn n = true := by
  have hbound (names : List String) (c : Checker)
      (hc : ∀ f ∈ c.findings, ∃ n, g.units.contains n = true ∧ f.liesIn n = true) :
      ∀ f ∈ (bindEach g.units c names).1.findings,
        ∃ n, g.units.contains n = true ∧ f.liesIn n = true := by
    induction names generalizing c with
    | nil => exact hc
    | cons name rest ih =>
      cases hu : g.units.find? name with
      | none =>
        rw [bindEach_of_none hu]
        exact ih c hc
      | some u =>
        have hcontains : g.units.contains name = true := (h.places.eq_of_find? hu).1
        have hsource : u.source = name := h.places.source_eq hu
        rw [bindEach_of_some hu]
        refine ih _ fun f hf => ?_
        obtain ⟨found, hfound, hlies⟩ := (grows_bind g.units u c).findings
        rw [hfound] at hf
        rcases List.mem_append.1 hf with hf | hf
        · exact hc f hf
        · exact ⟨name, hcontains, hsource ▸ hlies f hf⟩
  rw [findings_bindAll h.places.nodup]
  exact hbound _ _ h.places.elsewhere

theorem isFormed_bindAll (h : IsComplete o place exchanges g) : (bindAll g).IsFormed where
  nodup := nodup_bindAll h.places.nodup
  source _ _ hu := (yields_bindAll h hu).2.source
  located _ _ hu := (yields_bindAll h hu).2.located
  found f hf := by
    obtain ⟨n, hn, hlies⟩ := exists_liesIn_bindAll h f hf
    exact ⟨n, (contains_bindAll g n).trans hn, hlies⟩

end Gathering

end Toy

/-! ## Texts and failures -/

namespace Workspace

open Toy

variable {env : Environment} {budget : Nat} {ws : Workspace} {sources : Table String String}

/-- What is noted of answers, one after the other, for a source whose answers are the same. -/
theorem find?_foldl_note {α : Type} {note : Table String α → Exchange → Table String α}
    {f : ReadOutcome → Option α} {n : String}
    (hnote : ∀ t x, (note t x).find? n =
      if x.path = n then (f x.outcome).or (t.find? n) else t.find? n)
    {l : List Exchange} {outcome : ReadOutcome}
    (hsame : ∀ x ∈ l, x.path = n → x.outcome = outcome) (t : Table String α) :
    (l.foldl note t).find? n =
      if ∃ x ∈ l, x.path = n then (f outcome).or (t.find? n) else t.find? n := by
  induction l generalizing t with
  | nil => simp
  | cons x rest ih =>
    rw [List.foldl_cons, ih fun y hy => hsame y (List.mem_cons_of_mem _ hy), hnote]
    by_cases hx : x.path = n
    · have hfirst := hsame x List.mem_cons_self hx
      simp only [List.mem_cons, exists_eq_or_imp, hx, true_or, if_true, hfirst]
      split
      · cases f outcome <;> rfl
      · rfl
    · simp only [List.mem_cons, exists_eq_or_imp, hx, false_or, if_false]

section Asked

variable {o : Origin} {l : List Exchange} {n : String}
  (hasked : ∀ x ∈ l, x.kind = sourceKind ∧ o.sources.contains x.path = false ∧
    o.answer sourceKind x.path = .ok x.outcome)
include hasked

theorem filter_reaches : l.filter (Reaches o.sources) = l :=
  List.filter_eq_self.2 fun x hx => by
    obtain ⟨hkind, hnew, -⟩ := hasked x hx
    simp [Reaches, hkind, hnew]

theorem outcome_eq_of_asked {outcome : ReadOutcome} (h : o.answer sourceKind n = .ok outcome) :
    ∀ x ∈ l, x.path = n → x.outcome = outcome := by
  rintro x hx rfl
  exact (Except.ok.inj (h.symm.trans (hasked x hx).2.2)).symm

/-- The text that was read of a source. -/
theorem find?_readTextsOf {outcome : ReadOutcome} (h : o.answer sourceKind n = .ok outcome) :
    (readTextsOf o.sources .empty l).find? n =
      if ∃ x ∈ l, x.path = n then outcome.toOption else none := by
  unfold readTextsOf
  rw [filter_reaches hasked, find?_foldl_note (f := Except.toOption) (fun t x => ?_)
    (outcome_eq_of_asked hasked h)]
  · simp
  · cases x.outcome <;> simp [Except.toOption]

/-- Why a source was not served. -/
theorem find?_readFailuresOf {outcome : ReadOutcome} (h : o.answer sourceKind n = .ok outcome) :
    (readFailuresOf o.sources .empty l).find? n =
      if ∃ x ∈ l, x.path = n then failureOf? outcome else none := by
  unfold readFailuresOf
  rw [filter_reaches hasked, find?_foldl_note (f := failureOf?) (fun t x => ?_)
    (outcome_eq_of_asked hasked h)]
  · simp
  · cases x.outcome <;> simp [failureOf?]

end Asked

theorem nodup_readTextsOf (sources : Table String String) (l : List Exchange) :
    (readTextsOf sources .empty l).keys.Nodup := by
  unfold readTextsOf
  generalize l.filter (Reaches sources) = l
  have hfold (t : Table String String) (ht : t.keys.Nodup) : (l.foldl
      (fun t x => match x.outcome with
        | .ok text => t.insert x.path text
        | .error _ => t) t).keys.Nodup := by
    induction l generalizing t with
    | nil => exact ht
    | cons x rest ih =>
      refine ih _ ?_
      cases hx : x.outcome with
      | ok text => simpa only [hx] using Table.nodup_keys_insert _ _ _ ht
      | error failure => simpa only [hx] using ht
  exact hfold .empty .nil

section Gathered

variable {k : Knowledge} {exchanges : List Exchange} {g : Gathering} {place : String → Int}
  {n m : String}

/-- The text of a compiled source is that of its origin. -/
theorem IsGathered.find?_sources (h : IsGathered env budget ws k sources exchanges g)
    (hcomplete : Gathering.IsComplete (ws.origin env sources) place exchanges g)
    (hn : g.units.contains n = true) :
    k.sources.find? n = (ws.origin env sources).text? n := by
  have hasked := hcomplete.follows.asked
  rw [h.texts, Table.find?_foldl_insert (nodup_readTextsOf _ _)]
  rcases hcomplete.follows.read n (hcomplete.follows.units n hn) with hgiven | hread
  · obtain ⟨text, htext⟩ := Option.isSome_iff_exists.1 hgiven
    have htext : sources.find? n = some text := htext
    have hanswer : (ws.origin env sources).answer sourceKind n = .ok (.ok text) := by
      simp [origin, answer, htext]
    have hnone : ¬ ∃ x ∈ exchanges, x.path = n := by
      rintro ⟨x, hx, rfl⟩
      rw [(hasked x hx).2.1] at hgiven
      cases hgiven
    have htexts := find?_readTextsOf hasked hanswer
    rw [if_neg hnone] at htexts
    rw [show (readTextsOf sources .empty exchanges).find? n = none from htexts]
    simp [Origin.text?, origin, htext]
  · obtain ⟨x, hx, rfl⟩ := hread
    obtain ⟨-, hnew, hanswer⟩ := hasked x hx
    have htexts := find?_readTextsOf hasked hanswer
    rw [if_pos ⟨x, hx, rfl⟩] at htexts
    rw [show (readTextsOf sources .empty exchanges).find? x.path = _ from htexts,
      Origin.text?_of_answer hnew hanswer,
      show sources.find? x.path = none from (Table.contains_eq_false_iff _ _).1 hnew, Option.or_none]

/-- Why an import of a compiled source was not served is said by its origin. -/
theorem IsGathered.find?_readFailures (h : IsGathered env budget ws k sources exchanges g)
    (hcomplete : Gathering.IsComplete (ws.origin env sources) place exchanges g)
    (hn : g.units.contains n = true) (hm : m ∈ (ws.origin env sources).imports n) :
    k.readFailures.find? m = (ws.origin env sources).failure? m := by
  have hasked := hcomplete.follows.asked
  have hread : sources.contains m = true ∨ ∃ x ∈ exchanges, x.path = m := by
    rcases hcomplete.follows.imports n hn m hm with hunit | ⟨-, hread⟩
    · have hunit : g.units.contains m = true := by simpa [hcomplete.done] using hunit
      exact hcomplete.follows.read m (hcomplete.follows.units m hunit)
    · exact .inr hread
  rw [h.readFailures]
  rcases hread with hgiven | hread
  · obtain ⟨text, htext⟩ := Option.isSome_iff_exists.1 hgiven
    have htext : sources.find? m = some text := htext
    have hanswer : (ws.origin env sources).answer sourceKind m = .ok (.ok text) := by
      simp [origin, answer, htext]
    have hfailures := find?_readFailuresOf hasked hanswer
    rw [show (readFailuresOf sources .empty exchanges).find? m = _ from hfailures]
    simp [Origin.failure?, failureOf?, origin, htext]
  · obtain ⟨x, hx, rfl⟩ := hread
    obtain ⟨-, hnew, hanswer⟩ := hasked x hx
    have hfailures := find?_readFailuresOf hasked hanswer
    rw [if_pos ⟨x, hx, rfl⟩] at hfailures
    rw [show (readFailuresOf sources .empty exchanges).find? x.path = _ from hfailures]
    simp [Origin.failure?, hanswer, (Table.contains_eq_false_iff _ _).1 hnew]

end Gathered

end Workspace

end LanguageServer
