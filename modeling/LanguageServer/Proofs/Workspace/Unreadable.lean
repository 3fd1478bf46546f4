import LanguageServer.Proofs.Toy.Directives
import LanguageServer.Proofs.Workspace.Locality
import LanguageServer.Proofs.Workspace.Pointing

/-!
# Imports that cannot be read

After a compilation an import directive leads to a unit, and then nothing is reported in its place;
or the source that it leads to could not be read, and then this is what is reported there, once.
The engine itself reports nothing there that would hold this back, and directives stand in places
of their own, so each is told of alone even if several lead to one source.

## Main definitions

* `Workspace.findingsAt` — what is reported at a place.
* `Workspace.Settles` — an import directive leads to a unit, or what it misses is reported.

## Main statements

* `Workspace.filter_importFailures_of_mem_directives` — the failures at a directive are its own.
* `Workspace.settles_directives` — every import directive of a compiled unit is settled.
-/

namespace LanguageServer

open Toy

/-- Of members that differ in what a function takes them to, one is found by that. -/
theorem filter_eq_singleton_of_nodup {α β : Type} [DecidableEq β] {key : α → β} {l : List α}
    (hnodup : (l.map key).Nodup) {a : α} (ha : a ∈ l) : l.filter (key · = key a) = [a] := by
  obtain ⟨before, behind, rfl⟩ := List.append_of_mem ha
  rw [List.map_append, List.map_cons, List.nodup_append] at hnodup
  obtain ⟨-, hlater, hearlier⟩ := hnodup
  have hnew := (List.nodup_cons.1 hlater).1
  have hbefore : before.filter (key · = key a) = [] := List.filter_eq_nil_iff.2 fun b hb heq =>
    hearlier _ (List.mem_map_of_mem hb) _ List.mem_cons_self (of_decide_eq_true heq)
  have hbehind : behind.filter (key · = key a) = [] := List.filter_eq_nil_iff.2 fun b hb heq =>
    hnew (of_decide_eq_true heq ▸ List.mem_map_of_mem hb)
  simp [List.filter_append, hbefore, hbehind]

/-! ## Where directives lead -/

namespace Toy

variable {o : Origin} {place : String → Int} {exchanges : List Exchange} {g : Gathering}
  {name : String}

/-- A source that there is was not refused. -/
theorem Origin.failure?_eq_none_of_has (h : o.has name = true) : o.failure? name = none := by
  unfold Origin.has Origin.text? at h
  unfold Origin.failure?
  cases hsource : o.sources.find? name with
  | some text => rfl
  | none =>
    simp only [hsource] at h
    cases hanswer : o.answer sourceKind name with
    | error f => rfl
    | ok outcome =>
      cases outcome with
      | ok text => rfl
      | error failure => simp [hanswer] at h

/-- What a unit imports is a unit, and was not refused; or it is none, and was refused. -/
theorem Gathering.unit_or_failure_of_mem_imports (h : IsComplete o place exchanges g)
    (hname : g.units.contains name = true) {source : String} (hsource : source ∈ o.imports name) :
    g.units.contains source = true ∧ o.failure? source = none ∨
      g.units.contains source = false ∧ ∃ failure, o.sources.find? source = none ∧
        o.answer sourceKind source = .ok (.error failure) ∧ o.failure? source = some failure := by
  rcases h.follows.imports name hname source hsource with hunit | ⟨hmissing, x, hx, rfl⟩
  · have hunit : g.units.contains source = true := by simpa [h.done] using hunit
    exact .inl ⟨hunit, Origin.failure?_eq_none_of_has (h.follows.has (h.follows.units _ hunit))⟩
  · obtain ⟨-, hnew, hanswer⟩ := h.follows.asked x hx
    have hnone : g.units.contains x.path = false := by
      rw [Bool.eq_false_iff]
      intro hunit
      exact Bool.false_ne_true (hmissing.symm.trans (h.follows.has (h.follows.units _ hunit)))
    rw [Origin.has, Origin.text?_of_answer hnew hanswer] at hmissing
    cases houtcome : x.outcome with
    | ok text => simp [houtcome, Except.toOption] at hmissing
    | error failure =>
      rw [houtcome] at hanswer
      have hgiven := (Table.contains_eq_false_iff _ _).1 hnew
      exact .inr ⟨hnone, failure, hgiven, hanswer, by simp [Origin.failure?, hgiven, hanswer, failureOf?]⟩

end Toy

namespace Workspace

variable {env : Environment} {budget : Nat} {ws ws' : Workspace} {p program : Program}
  {name path : String} {u : CompiledUnit} {m : Node} {failures : Table String ReadFailure}
  {reported : List SourceLocation}

/-! ## What is reported at a directive -/

/-- What is reported at a place: by the engine, then for imports that were not served. -/
def findingsAt (ws : Workspace) (p : Program) (l : SourceLocation) : List Finding :=
  (p.findings ++ ws.importFailures p).filter (·.location = some l)

/-- A directive about which nothing has been reported tells why its source was not served. -/
theorem nodeFailure?_eq (hpath : m.label.importPath = some path) (hnew : m.location ∉ reported) :
    nodeFailure? failures reported m =
      (failures.find? (importKey m.label path)).map (importFailure path · m.location) := by
  simp only [nodeFailure?, hpath, Option.bind_eq_bind, Option.bind_some, List.contains_iff_mem,
    if_neg hnew]
  cases failures.find? (importKey m.label path) <;> rfl

theorem nodeFailure?_eq_none (hpath : m.label.importPath = none) :
    nodeFailure? failures reported m = none := by
  simp [nodeFailure?, hpath]

/-- The failures at a directive are its own. -/
theorem filter_importFailures_of_mem_directives (hp : p.IsFormed) (hu : p.units.find? name = some u)
    (hnodup : (u.directives.map (·.location)).Nodup) (hm : m ∈ u.directives) :
    (ws.importFailures p).filter (·.location = some m.location) =
      (nodeFailure? ws.readFailures (p.findings.filterMap (·.location)) m).toList := by
  have hsource := hp.located name u hu m (CompiledUnit.mem_directives.1 hm).1
  have hlies : (ws.importFailures p).filter (·.location = some m.location) =
      ((ws.importFailures p).filter (·.liesIn name)).filter (·.location = some m.location) := by
    rw [List.filter_filter]
    refine List.filter_congr fun f _ => ?_
    by_cases hf : f.location = some m.location
    · simp [hf, Finding.liesIn, hsource]
    · simp [hf]
  rw [hlies, filter_importFailures hp name, hu, Option.map_some, Option.getD_some,
    Node.walk_eq_preorder]
  generalize hfailure : nodeFailure? ws.readFailures (p.findings.filterMap (·.location)) = failure?
  have hlocation (k : Node) (f : Finding) (hf : failure? k = some f) : f.location = some k.location :=
    (location_of_nodeFailure? (hfailure ▸ hf)).1
  have hdirectives : u.root.preorder.filterMap failure? = u.directives.filterMap failure? := by
    rw [CompiledUnit.directives, List.filterMap_filter]
    refine List.filterMap_congr fun k _ => ?_
    cases hpath : k.label.importPath with
    | some path => rfl
    | none => exact hfailure ▸ nodeFailure?_eq_none hpath
  have hplace (k : Node) : (failure? k).filter (·.location = some m.location) =
      if k.location = m.location then failure? k else none := by
    cases hf : failure? k with
    | none => simp
    | some f => simp [Option.filter, hlocation k f hf]
  have hself : u.directives.filter (·.location = m.location) = [m] :=
    filter_eq_singleton_of_nodup hnodup hm
  calc (u.root.preorder.filterMap failure?).filter (·.location = some m.location)
      = u.directives.filterMap fun k => if k.location = m.location then failure? k else none := by
        rw [hdirectives, List.filter_filterMap]
        exact List.filterMap_congr fun k _ => hplace k
    _ = (u.directives.filter (·.location = m.location)).filterMap failure? := by
        rw [List.filterMap_filter]
        simp only [decide_eq_true_eq]
    _ = (failure? m).toList := by
        rw [hself]
        cases hf : failure? m <;> simp [hf]

/-- Failures are reported at directives only. -/
theorem exists_directive_of_mem_importFailures (hp : p.IsFormed) {f : Finding}
    (hf : f ∈ ws.importFailures p) :
    ∃ name u, p.units.find? name = some u ∧ ∃ m ∈ u.directives, f.location = some m.location := by
  obtain ⟨u, hu, hf⟩ := List.mem_flatMap.1 hf
  obtain ⟨⟨name, u⟩, hentry, rfl⟩ := List.mem_map.1 hu
  obtain ⟨m, hm, hfailure⟩ := List.mem_filterMap.1 hf
  refine ⟨name, u, Table.find?_of_mem_entries hp.nodup hentry, m, ?_,
    (location_of_nodeFailure? hfailure).1⟩
  refine CompiledUnit.mem_directives.2 ⟨Node.walk_eq_preorder u.root ▸ hm, ?_⟩
  cases hpath : m.label.importPath with
  | some path => exact ⟨path, rfl⟩
  | none =>
    rw [nodeFailure?_eq_none hpath] at hfailure
    cases hfailure

/-- Where the engine reports nothing a directive tells why its source was not served, and nothing else
is reported there. -/
theorem findingsAt_of_mem_directives (hp : p.IsFormed) (hu : p.units.find? name = some u)
    (hnodup : (u.directives.map (·.location)).Nodup) (hm : m ∈ u.directives)
    (hpath : m.label.importPath = some path)
    (hsilent : ∀ f ∈ p.findings, f.location ≠ some m.location) :
    ws.findingsAt p m.location =
      ((ws.readFailures.find? (importKey m.label path)).map
        (importFailure path · m.location)).toList := by
  have hnone : p.findings.filter (·.location = some m.location) = [] :=
    List.filter_eq_nil_iff.2 fun f hf hlocation => hsilent f hf (of_decide_eq_true hlocation)
  have hnew : m.location ∉ p.findings.filterMap (·.location) := by
    intro hmem
    obtain ⟨f, hf, hlocation⟩ := List.mem_filterMap.1 hmem
    exact hsilent f hf hlocation
  rw [findingsAt, List.filter_append, hnone, List.nil_append,
    filter_importFailures_of_mem_directives hp hu hnodup hm, nodeFailure?_eq hpath hnew]

/-! ## Every directive is settled -/

/-- An import directive of the source `name` leads to the source that its path is resolved to.  Either
this is a unit and nothing is reported in the place of the directive; or it is none, it could not be
read, and why is all that is reported there. -/
structure Settles (files : FileSystem) (ws ws' : Workspace) (p : Program) (name : String) (m : Node)
    (path source : String) : Prop where
  spelled : m.label.importPath = some path
  resolved : source = resolveImport ws.configuration.remappings name path
  leads : m.label.importedSource = some source
  reported : p.units.contains source = true ∧ ws'.findingsAt p m.location = [] ∨
    p.units.contains source = false ∧ ∃ failure, readDisk files ws source = .ok (.error failure) ∧
      ws'.findingsAt p m.location = [importFailure path failure m.location]

/-- After a compilation with the toy engine every import directive of every unit is settled, and no two
directives of a unit stand in one place.  Only at directives imports are reported as not served. -/
theorem settles_directives (henv : env.IsToy budget) {said : List (Effect × Workspace)}
    (hcompile : (compile env).run ws = ⟨said, .ok program, ws'⟩) :
    (∀ name u, program.units.find? name = some u → (u.directives.map (·.location)).Nodup ∧
        ∀ m ∈ u.directives, ∃ path source,
          Settles env.files ws ws' program name m path source) ∧
      ∀ f ∈ ws'.importFailures program, ∃ name u, program.units.find? name = some u ∧
        ∃ m ∈ u.directives, f.location = some m.location := by
  obtain ⟨k, sources, exchanges, g, hgathered, rfl, hknows, -⟩ :=
    exists_isGathered_of_compile henv hcompile
  obtain ⟨place, hcomplete⟩ := hgathered.isComplete
  rw [hgathered.program]
  have hformed := Gathering.isFormed_bindAll hcomplete
  refine ⟨fun name u hu => ?_, fun f hf => exists_directive_of_mem_importFailures hformed hf⟩
  have hsound := hgathered.isSound
  have hnodup := Gathering.nodup_directives hsound hu
  refine ⟨hnodup, fun m hm => ?_⟩
  obtain ⟨hmem, path, hpath⟩ := CompiledUnit.mem_directives.1 hm
  obtain ⟨hsource, himports⟩ := Gathering.importedSource_bindAll hcomplete hu hmem hpath
  have hrules : (ws.origin env sources).rules = ws.configuration.remappings := rfl
  rw [hrules] at hsource himports
  have hcontains := (Gathering.yields_bindAll hcomplete hu).1
  have hsilent := Gathering.location_ne_of_mem_directives hsound hcomplete hu hm
  have hfindings : ws'.findingsAt (bindAll g) m.location = _ :=
    findingsAt_of_mem_directives hformed hu hnodup hm hpath hsilent
  rw [importKey_eq hsource, hknows.readFailures,
    hgathered.find?_readFailures hcomplete hcontains himports] at hfindings
  refine ⟨path, _, hpath, rfl, hsource, ?_⟩
  rw [Gathering.contains_bindAll, hfindings]
  rcases Gathering.unit_or_failure_of_mem_imports hcomplete hcontains himports with
    ⟨hunit, hfailure⟩ | ⟨hnone, failure, hnew, hanswer, hfailure⟩
  · rw [hfailure]
    exact .inl ⟨hunit, rfl⟩
  · rw [hfailure]
    exact .inr ⟨hnone, failure, readDisk_of_answer hnew hanswer, rfl⟩

/-- A file that spells the path of one missing file in two ways. -/
def missingEnvironment : Environment where
  files :=
    { files := .ofList [(["w", "lib.toy"],
        Text.encodeUtf8 "import \"./gone.toy\";import \"lib/gone.toy\";".toList)]
      links := .empty, workingDirectory := [] }
  engines := fun _ => Toy.engine 10
  reporter := "toy"

/-- A workspace with a document that imports this file. -/
def missing : Workspace :=
  { Workspace.empty with
    store := DocumentStore.empty.track "u" (.str "toy") none "import \"/w/lib.toy\";var x;"
    configuration := { remappings := [⟨"", "lib", "/w"⟩] } }

/-- Where the directives of a source lead after a compilation, and whether there are units. -/
def targetsOf (r : Run Workspace Program) (name : String) : List (Option String × Bool) :=
  match r.result with
  | .ok program =>
    ((program.units.find? name).map fun u => u.directives.map fun m =>
      (m.label.importedSource, m.label.importedSource.any program.units.contains)).getD []
  | .error _ => []

/-- Both directives tell why the file is missing. -/
theorem settles_directives_missing : ∃ said program ws' u,
    (compile missingEnvironment).run missing = ⟨said, .ok program, ws'⟩ ∧
      program.units.find? "/w/lib.toy" = some u ∧ u.directives.length = 2 ∧
      ∀ m ∈ u.directives, ∃ path failure,
        Settles missingEnvironment.files missing ws' program "/w/lib.toy" m path "/w/gone.toy" ∧
        ws'.findingsAt program m.location = [importFailure path failure m.location] := by
  have htargets : targetsOf ((compile missingEnvironment).run missing) "/w/lib.toy" =
      [(some "/w/gone.toy", false), (some "/w/gone.toy", false)] := by
    decide +kernel
  cases hrun : (compile missingEnvironment).run missing with
  | mk said result ws' =>
    rw [hrun] at htargets
    cases result with
    | error f => cases htargets
    | ok program =>
      obtain ⟨hunits, -⟩ := settles_directives (fun _ => rfl : missingEnvironment.IsToy 10) hrun
      cases hu : program.units.find? "/w/lib.toy" with
      | none => simp [targetsOf, hu] at htargets
      | some u =>
        simp only [targetsOf, hu, Option.map_some, Option.getD_some] at htargets
        refine ⟨said, program, ws', u, rfl, hu, by simpa using congrArg List.length htargets,
          fun m hm => ?_⟩
        obtain ⟨path, source, hsettles⟩ := (hunits _ u hu).2 m hm
        have htarget : (m.label.importedSource, m.label.importedSource.any program.units.contains) =
            (some "/w/gone.toy", false) := by
          have hmem := htargets ▸ List.mem_map_of_mem hm
          simpa using hmem
        rw [hsettles.leads] at htarget
        obtain ⟨hsource, hnone⟩ := Prod.mk.inj htarget
        obtain rfl := Option.some.inj hsource
        rcases hsettles.reported with ⟨hunit, -⟩ | ⟨-, failure, -, hfindings⟩
        · exact absurd (hunit.symm.trans hnone) (by decide)
        · exact ⟨path, failure, hsettles, hfindings⟩

end Workspace

end LanguageServer
