import LanguageServer.Proofs.Toy.Restriction
import LanguageServer.Proofs.Toy.WellFormed
import LanguageServer.Proofs.Workspace.Compiled
import Mathlib.Data.Set.Finite.Basic
import Mathlib.Order.Bounds.Basic

/-!
# The sources of a program

A compilation takes up what it is handed and what this leads to.  If only finitely many sources can
be read, it ends; its units are then the least set that holds the given sources and, with a unit,
every import of the unit that has a text.  No source is asked for that was handed over, nor one that
was served before.

## Main definitions

* `EngineInput.text?` — the text of a source, handed over or read.
* `Program.IsClosure` — a program of the least set of units, each read from its text.
* `Gathering.AsksOnce` — what is asked was not known, and is not asked again once it is served.

## Main statements

* `Gathering.asksOnce_run` — gathering asks for no source twice.
* `exists_isClosure_compile` — a compilation ends, and with such a program.
-/

namespace LanguageServer

open Toy

/-- The text of a source: the one that is handed over, else the one that the callback reads. -/
def EngineInput.text? (input : EngineInput) (callback : String → String → ReadOutcome)
    (name : String) : Option String :=
  (input.sources.find? name).or (callback sourceKind name).toOption

/-- A set of names holds the given sources and, with each unit, its imports that have a text. -/
structure Program.IsClosedUnderImports (input : EngineInput)
    (callback : String → String → ReadOutcome) (p : Program) (S : Set String) : Prop where
  given : ∀ name, input.sources.contains name = true → name ∈ S
  imported : ∀ name ∈ S, ∀ u, p.units.find? name = some u → ∀ other ∈ u.imports,
    (input.text? callback other).isSome = true → other ∈ S

/-- The units are the least set that is closed under imports.  The tree of each is that of its text,
apart from what names refer to and the handles, which are moved together; its import directives say
where they lead. -/
structure Program.IsClosure (input : EngineInput) (callback : String → String → ReadOutcome)
    (p : Program) : Prop where
  least : IsLeast {S | p.IsClosedUnderImports input callback S} {name | name ∈ p.units.keys}
  parsed : ∀ name u, p.units.find? name = some u → ∃ text place,
    input.text? callback name = some text ∧
      u.root.bare = ((parseFile name text .empty).1.relabel (· + place)).toUnit.root.bare
  resolved : ∀ name u, p.units.find? name = some u → ∀ m ∈ u.root.preorder,
    m.kind = "ImportDirective" → ∃ path, m.label.importPath = some path ∧
      m.label.importedSource = some (resolveImport input.remappings name path)

/-- Nothing is asked for that is handed over, and nothing again once it is served. -/
structure IsFrugal (sources : Table String String) (exchanges : List Exchange) : Prop where
  given : ∀ x ∈ exchanges, sources.contains x.path = false
  once : exchanges.Pairwise fun x y => x.path = y.path → ∃ failure, x.outcome = .error failure

namespace Toy

/-! ## What is asked -/

/-- What is asked while texts become known: nothing that is known, and nothing again once it is
served. -/
structure AsksOnce (texts : Table String String) (exchanges : List Exchange)
    (texts' : Table String String) : Prop where
  kept : ∀ name, texts.contains name = true → texts'.contains name = true
  unknown : ∀ x ∈ exchanges, texts.contains x.path = false
  served : ∀ x ∈ exchanges, ∀ text, x.outcome = .ok text → texts'.contains x.path = true
  once : exchanges.Pairwise fun x y => x.path = y.path → ∃ failure, x.outcome = .error failure

namespace AsksOnce

variable {texts texts₁ texts' : Table String String} {exchanges exchanges' : List Exchange}

theorem refl (texts : Table String String) : AsksOnce texts [] texts where
  kept _ hname := hname
  unknown := fun _ => nofun
  served := fun _ => nofun
  once := .nil

theorem trans (h : AsksOnce texts exchanges texts₁) (h' : AsksOnce texts₁ exchanges' texts') :
    AsksOnce texts (exchanges ++ exchanges') texts' where
  kept name hname := h'.kept name (h.kept name hname)
  unknown x hx := by
    rcases List.mem_append.1 hx with hx | hx
    · exact h.unknown x hx
    · rw [Bool.eq_false_iff]
      intro hknown
      have hnew := h'.unknown x hx
      rw [h.kept _ hknown] at hnew
      cases hnew
  served x hx text htext := by
    rcases List.mem_append.1 hx with hx | hx
    · exact h'.kept _ (h.served x hx text htext)
    · exact h'.served x hx text htext
  once := by
    refine List.pairwise_append.2 ⟨h.once, h'.once, fun x hx y hy hpath => ?_⟩
    cases houtcome : x.outcome with
    | error failure => exact ⟨failure, rfl⟩
    | ok text =>
      have hnew := h'.unknown y hy
      rw [← hpath, h.served x hx text houtcome] at hnew
      cases hnew

variable {name : String}

/-- A question that is answered in vain. -/
theorem vain (hnew : texts.contains name = false) (failure : ReadFailure) :
    AsksOnce texts [⟨sourceKind, name, .error failure⟩] texts where
  kept _ hother := hother
  unknown x hx := by
    rw [List.mem_singleton.1 hx]
    exact hnew
  served x hx text htext := by
    rw [List.mem_singleton.1 hx] at htext
    cases htext
  once := List.pairwise_singleton ..

/-- A question that is answered with a text. -/
theorem answered (hnew : texts.contains name = false) (text : String) :
    AsksOnce texts [⟨sourceKind, name, .ok text⟩] (texts.insert name text) where
  kept _ hother := (Table.contains_insert ..).2 (.inr hother)
  unknown x hx := by
    rw [List.mem_singleton.1 hx]
    exact hnew
  served x hx _ _ := by
    rw [List.mem_singleton.1 hx]
    exact (Table.contains_insert ..).2 (.inl rfl)
  once := List.pairwise_singleton ..

end AsksOnce

namespace Gathering

variable {g g' : Gathering} {exchanges : List Exchange}

/-- Asking for imports asks for none that is known. -/
theorem asksOnce_askAll {names : List String} (h : (g.askAll names).Ends exchanges g') :
    AsksOnce g.texts exchanges g'.texts := by
  induction names generalizing g exchanges with
  | nil =>
    cases h
    exact .refl _
  | cons name rest ih =>
    unfold askAll at h
    split at h
    · exact ih (g := { g with pending := g.pending ++ [name] }) h
    · next hnew =>
      have hnew : g.texts.contains name = false := by simpa using hnew
      cases h with
      | ask outcome h =>
        cases outcome with
        | error failure => exact (AsksOnce.vain hnew failure).trans (ih h)
        | ok text => exact (AsksOnce.answered hnew text).trans (ih h)

/-- Gathering asks for no source again that was served. -/
theorem asksOnce_run {rules : List Remapping} {n : Nat} (h : (g.run rules n).Ends exchanges g') :
    AsksOnce g.texts exchanges g'.texts := by
  induction n generalizing g exchanges with
  | zero =>
    unfold run at h
    split at h
    · cases h
      exact .refl _
    · cases h
  | succ n ih =>
    unfold run at h
    split at h
    · cases h
      exact .refl _
    · next name rest hpending =>
      dsimp only at h
      split at h
      · exact ih (g := { g with pending := rest }) h
      · obtain ⟨first, g₁, second, rfl, hasked, hrun⟩ := h.of_andThen
        exact (asksOnce_askAll hasked).trans (ih hrun)

/-! ## What is gathered -/

section

variable {input : EngineInput} {callback : String → String → ReadOutcome} {place : String → Int}

/-- Where the sources of a compilation come from. -/
def originOf (input : EngineInput) (callback : String → String → ReadOutcome) : Origin where
  sources := input.sources
  rules := input.remappings
  answer kind path := .ok (callback kind path)

theorem text?_originOf (name : String) :
    (originOf input callback).text? name = input.text? callback name := by
  unfold Origin.text? EngineInput.text? originOf
  cases input.sources.find? name with
  | some text => rfl
  | none =>
    cases hanswer : callback sourceKind name with
    | ok text => simp [hanswer, Except.toOption]
    | error failure => simp [hanswer, Except.toOption]

/-- The units that can be imported are finitely many, so gathering ends. -/
theorem exists_gathers_of_finite
    (hfinite : {path | ∃ text, callback sourceKind path = .ok text}.Finite) :
    ∃ n exchanges g, Gathers (originOf input callback) n (.start input.sources) exchanges g := by
  -- What can be asked for with success is handed over or can be read, and both are finite.
  have hD : ∀ name, True → (originOf input callback).has name = true →
      (Gathering.start input.sources).units.contains name = true ∨
        name ∈ (input.sources.keys ++ hfinite.toFinset.toList).dedup := by
    intro name _ hhas
    rw [Origin.has, text?_originOf, EngineInput.text?, Option.isSome_or, Bool.or_eq_true] at hhas
    refine .inr (List.mem_dedup.2 (List.mem_append.2 (hhas.imp (fun hgiven => ?_) fun hread => ?_)))
    · exact (Table.contains_iff_mem_keys _ _).1 hgiven
    · rw [Finset.mem_toList, Set.Finite.mem_toFinset]
      cases hanswer : callback sourceKind name with
      | ok text => exact ⟨text, hanswer⟩
      | error failure =>
        rw [hanswer] at hread
        cases hread
  obtain ⟨n, -, exchanges, g, h⟩ := exists_gathers (o := originOf input callback) (P := fun _ => True)
    (fun _ _ _ _ => trivial) (fun _ _ other _ _ => ⟨callback sourceKind other, rfl⟩) (.start _)
    (.empty _) (fun _ _ => trivial) (List.nodup_dedup _) hD (Nat.le_refl _)
  exact ⟨n, exchanges, g, h⟩

variable {o : Origin}

/-- The server sees the imports of a source. -/
theorem imports_bindAll (h : IsComplete o place exchanges g) {name : String} {u : CompiledUnit}
    (hu : (bindAll g).units.find? name = some u) : u.imports = o.imports name := by
  obtain ⟨w, c, hw, rfl⟩ := exists_bind_of_bindAll h.places.nodup hu
  obtain ⟨hcontains, rfl⟩ := h.places.eq_of_find? hw
  have hhas := h.follows.has (h.follows.units name hcontains)
  rw [SourceFile.imports_toUnit, SourceFile.imports_eq_outline, SourceFile.outline_bind,
    ← SourceFile.imports_eq_outline, SourceFile.imports_relabel, Origin.imports, if_pos hhas]

theorem mem_keys_bindAll {name : String} :
    name ∈ (bindAll g).units.keys ↔ g.units.contains name = true := by
  rw [← contains_bindAll, Table.contains_iff_mem_keys]

/-- The units that are gathered are closed under imports. -/
theorem isClosedUnderImports_bindAll
    (h : IsComplete (originOf input callback) place exchanges g) :
    (bindAll g).IsClosedUnderImports input callback {name | name ∈ (bindAll g).units.keys} where
  given name hname := mem_keys_bindAll.2 (h.contains_of_source hname)
  imported name hname u hu other hother htext := by
    rw [imports_bindAll h hu] at hother
    refine mem_keys_bindAll.2 ((h.contains_of_import (mem_keys_bindAll.1 hname) hother).trans ?_)
    rwa [Origin.has, text?_originOf]

/-- Nothing is gathered but what a set that is closed under imports holds. -/
theorem subset_of_isClosedUnderImports {n : Nat}
    (hgathers : Gathers (originOf input callback) n (.start input.sources) exchanges g)
    (h : IsComplete (originOf input callback) place exchanges g) {S : Set String}
    (hS : (bindAll g).IsClosedUnderImports input callback S) :
    {name | name ∈ (bindAll g).units.keys} ⊆ S := by
  intro name hname
  have hunit := mem_keys_bindAll.1 hname
  have hhas := h.follows.has (h.follows.units name hunit)
  -- Along the whole run the names that are met are in `S` if they have a text.
  refine (hgathers.within (P := fun name => (originOf input callback).has name = true →
    name ∈ S ∧ g.units.contains name = true) (fun name hname other hother hhas => ?_)
    (.start _) (.empty _) (fun name hname _ => ?_) (fun name hname => ?_) name hunit hhas).1
  · obtain ⟨hin, hunit⟩ := hname (Origin.has_of_mem_imports hother)
    obtain ⟨u, hu⟩ := Option.isSome_iff_exists.1 ((contains_bindAll g name).trans hunit)
    refine ⟨hS.imported name hin u hu other (imports_bindAll h hu ▸ hother) ?_,
      (h.contains_of_import hunit hother).trans hhas⟩
    rwa [Origin.has, text?_originOf] at hhas
  · have hgiven : input.sources.contains name = true :=
      (Table.contains_iff_mem_keys _ _).2 (by simpa [start] using hname)
    exact ⟨hS.given name hgiven, h.contains_of_source hgiven⟩
  · simp [start, Table.contains] at hname

/-- The tree of a unit is that of its text, and its import directives say where they lead. -/
theorem isClosure_bindAll {n : Nat}
    (hgathers : Gathers (originOf input callback) n (.start input.sources) exchanges g)
    (h : IsComplete (originOf input callback) place exchanges g) :
    (bindAll g).IsClosure input callback where
  least := ⟨isClosedUnderImports_bindAll h, fun _ hS => subset_of_isClosedUnderImports hgathers h hS⟩
  parsed name u hu := by
    obtain ⟨w, c, hw, rfl⟩ := exists_bind_of_bindAll h.places.nodup hu
    obtain ⟨hcontains, rfl⟩ := h.places.eq_of_find? hw
    obtain ⟨text, htext⟩ := Option.isSome_iff_exists.1
      (h.follows.has (h.follows.units name hcontains))
    refine ⟨text, place name, text?_originOf name ▸ htext, ?_⟩
    rw [SourceFile.bare_bind, Origin.unit, ← SourceFile.resolved_relabel, SourceFile.bare_resolved,
      Origin.alone, htext]
    rfl
  resolved name u hu m hm hkind := by
    obtain ⟨w, c, -, rfl⟩ := exists_bind_of_bindAll h.places.nodup hu
    obtain ⟨path, hpath⟩ := (SourceFile.isSortedTree _ m hm).importPath hkind
    exact ⟨path, hpath, (importedSource_bindAll h hu hm hpath).1⟩

end

end Gathering

/-- A compilation that can read finitely many sources ends, and with the closure of what it is handed.
It asks for nothing that it was handed, and for nothing again that it was served. -/
theorem exists_isClosure_compile (input : EngineInput) (callback : String → String → ReadOutcome)
    (hfinite : {path | ∃ text, callback sourceKind path = .ok text}.Finite) :
    ∃ exchanges p,
      (∃ enough, ∀ budget, enough ≤ budget →
        (compile budget input).converse (fun kind path => .ok (callback kind path)) =
          (exchanges, .ok p)) ∧
      p.IsClosure input callback ∧ IsFrugal input.sources exchanges := by
  obtain ⟨enough, exchanges, g, hgathers⟩ : ∃ n exchanges g, Gathering.Gathers
      (Gathering.originOf input callback) n (.start input.sources) exchanges g :=
    Gathering.exists_gathers_of_finite hfinite
  obtain ⟨place, hcomplete⟩ := hgathers.isComplete (.start _) (.empty _)
  rw [List.nil_append] at hcomplete
  refine ⟨exchanges, bindAll g, ⟨enough, fun budget hbudget => ?_⟩,
    Gathering.isClosure_bindAll hgathers hcomplete, ?_⟩
  · exact Gathering.converse_compile_eq_ok_iff.2 ⟨g, rfl, enough, hbudget, hgathers⟩
  · have hrun := Gathering.converse_run.2 ⟨enough, Nat.le_refl _, hgathers⟩
    have hends := Compiling.ends_of_converse (congrArg Prod.snd hrun)
    rw [hrun] at hends
    have hasked := Gathering.asksOnce_run hends
    exact ⟨hasked.unknown, hasked.once⟩

/-- Two sources, one of which imports itself, two that have to be read, and others that cannot be. -/
def circular : EngineInput where
  sources := .ofList
    [("/m/a", "import \"./a\"; import \"./b\"; import \"./none\"; import \"lib/c\"; var x;"),
      ("/z", "import \"/none\"; import \"/m/none\"; x;")]
  remappings := [⟨"", "lib", "/m/lib"⟩]
  targetVersion := none

/-- Reads two sources, which import each other, what is handed over, and what cannot be read. -/
def readTwo (_ path : String) : ReadOutcome :=
  if path = "/m/b" then .ok "import \"../z\"; import \"lib/c\"; import \"./none\";"
  else if path = "/m/lib/c" then .ok "import \"../b\"; import \"../a\"; var y; y = x;"
  else .error (.noBase path)

theorem exists_isClosure_circular : ∃ exchanges p,
    (compile 9 circular).converse (fun kind path => .ok (readTwo kind path)) = (exchanges, .ok p) ∧
    (exchanges.map (·.path), p.units.keys) =
      (["/m/b", "/m/none", "/m/lib/c", "/none", "/m/none", "/m/none"],
        ["/m/a", "/z", "/m/b", "/m/lib/c"]) ∧
    p.IsClosure circular readTwo ∧ IsFrugal circular.sources exchanges := by
  have hfinite : {path | ∃ text, readTwo sourceKind path = .ok text}.Finite := by
    refine (Set.toFinite {"/m/b", "/m/lib/c"}).subset fun path => ?_
    rintro ⟨text, htext⟩
    by_contra hother
    simp only [Set.mem_insert_iff, Set.mem_singleton_iff, not_or] at hother
    simp [readTwo, hother.1, hother.2] at htext
  have hread : (((compile 9 circular).converse fun kind path => .ok (readTwo kind path)).1.map
        (·.path),
      ((compile 9 circular).converse fun kind path => .ok (readTwo kind path)).2.map
        (·.units.keys)) =
      (["/m/b", "/m/none", "/m/lib/c", "/none", "/m/none", "/m/none"],
        .ok ["/m/a", "/z", "/m/b", "/m/lib/c"]) := by
    decide +kernel
  obtain ⟨exchanges, p, ⟨enough, hends⟩, hclosure, hfrugal⟩ :=
    exists_isClosure_compile circular readTwo hfinite
  cases hresult : (compile 9 circular).converse fun kind path => .ok (readTwo kind path) with
  | mk asked result =>
    rw [hresult] at hread
    obtain ⟨hpaths, hkeys⟩ := Prod.mk.inj hread
    cases result with
    | error f => cases hkeys
    | ok q =>
      have hsame := (Gathering.converse_compile_of_le (Nat.le_max_left 9 enough) hresult).symm.trans
        (hends _ (Nat.le_max_right 9 enough))
      obtain ⟨rfl, hq⟩ := Prod.mk.inj hsame
      obtain rfl := Except.ok.inj hq
      exact ⟨asked, q, rfl, congrArg₂ Prod.mk hpaths (Except.ok.inj hkeys), hclosure, hfrugal⟩

end Toy

end LanguageServer
