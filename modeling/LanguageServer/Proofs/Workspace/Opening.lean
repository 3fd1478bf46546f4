import LanguageServer.Proofs.Workspace.Closing

/-!
# What opening a document leaves to see

A document that is opened may be imported by others: then they may look different, since
before they saw what was on disk, or nothing.  In all others the diagnostics stay as they
are, as compiling finds the same in all that they lead to.

## Main definitions

* `Workspace.leadsTo` — the source of a document leads to another source.
* `Workspace.Spares` — opening a document does not reach another one.

## Main statements

* `Workspace.compiledDiagnostics_track` — diagnostics of a document that is not reached stay.
* `openDocument_eq_ok` — what is published when a document is opened.
-/

namespace LanguageServer.Workspace

open Relation Toy

variable {env : Environment} {budget : Nat} {ws ws' : Workspace} {k k' : Knowledge}
  {uris uris' sources sources' : Table String String} {uri opened name : String}

/-! ## Names of other documents -/

/-- Whether a URI is that of a document with another name. -/
def isNamedApart (name uri : String) : Bool :=
  match sourceNameFor uri with
  | .ok n => n != name
  | .error _ => true

theorem isNamedApart_eq {n : String} (h : sourceNameFor uri = .ok n) :
    isNamedApart name uri = (n != name) := by
  unfold isNamedApart
  rw [h]

theorem toList_filter_uri {s : DocumentStore} (h : s.IsFormed) (p : String → Bool) :
    s.toList.filter (fun d => p d.uri) = (s.documents.restrict p).values := by
  unfold DocumentStore.toList Table.values Table.restrict
  rw [List.filter_map]
  congr 1
  refine List.filter_congr fun e he => ?_
  simp only [Function.comp_apply, h.uri e he]

/-- Tracking a document changes nothing about the documents with other names. -/
theorem find?_nameDocuments_track {s : DocumentStore} (hformed : s.IsFormed) {language : Json}
    {version : Option Int} {content : String} (hname : sourceNameFor opened = .ok name)
    (hnames : nameDocuments .empty .empty s.toList = (uris, .ok sources))
    (hnames' : nameDocuments .empty .empty (s.track opened language version content).toList =
      (uris', .ok sources')) {n : String} (hn : n ≠ name) :
    uris'.find? n = uris.find? n ∧ sources'.find? n = sources.find? n := by
  have hfiltered {l : List Document} {uris sources : Table String String}
      (h : nameDocuments .empty .empty l = (uris, .ok sources)) :
      nameDocuments .empty .empty (l.filter fun d => isNamedApart name d.uri) =
        (uris.restrict (· != name), .ok (sources.restrict (· != name))) :=
    nameDocuments_filter h fun d _ m hm => isNamedApart_eq hm
  have hleft := hfiltered hnames
  have hright := hfiltered hnames'
  have hsame : ((s.track opened language version content).documents.restrict (isNamedApart name)) =
      s.documents.restrict (isNamedApart name) := by
    show Table.restrict (Table.insert _ _ _) _ = _
    rw [Table.restrict_insert, if_neg (by simp [isNamedApart_eq hname])]
  rw [toList_filter_uri (hformed.track _ _ _ _), hsame, ← toList_filter_uri hformed] at hright
  obtain ⟨huris, hsources⟩ := Prod.mk.inj (hleft.symm.trans hright)
  have hfind {t t' : Table String String} (h : t.restrict (· != name) = t'.restrict (· != name)) :
      t'.find? n = t.find? n := by
    have hn' : (n != name) = true := by simpa using hn
    have := congrArg (·.find? n) h
    simpa [hn'] using this.symm
  exact ⟨hfind huris, hfind (Except.ok.inj hsources)⟩

/-! ## Documents that are not reached -/

/-- Whether the source of a document leads to a source, by the imports that a compilation finds. -/
def leadsTo (env : Environment) (ws : Workspace) (uri name : String) : Bool :=
  match ws.learn env, sourceNameFor uri with
  | .ok k, .ok n => ((importGraph k.program).reach [] [n]).contains name
  | _, _ => false

/-- Opening a document does not reach another one: the other one does not lead to it, whatever is
imported without a name is not there, and nothing of other sources is shown in the other one. -/
structure Spares (env : Environment) (opened uri : String) (ws ws' : Workspace) : Prop where
  leads : ∀ name, sourceNameFor opened = .ok name → ws'.leadsTo env uri name = false
  nameless : ws.compiles env "" = false
  nameless' : ws'.compiles env "" = false
  apart : ws.keepsApart env uri = true
  apart' : ws'.keepsApart env uri = true

theorem exists_name_of_tracked (hformed : ws.store.IsFormed)
    (hnames : nameDocuments .empty .empty ws.store.toList = (uris, .ok sources))
    (htracked : ws.store.contains uri = true) : ∃ n, sourceNameFor uri = .ok n := by
  obtain ⟨d, hd⟩ := Option.isSome_iff_exists.1 htracked
  have hentry := Table.mem_entries_of_find? hd
  obtain ⟨n, hname⟩ := exists_name hnames d (List.mem_map_of_mem hentry)
  rw [hformed.uri _ hentry] at hname
  exact ⟨n, hname⟩

/-- What a document leads to by a compilation is needed if the document is open, and leads to nothing
else. -/
theorem isNeeded_of_mem_reach (henv : env.IsToy budget) (hformed : ws.store.IsFormed)
    (hlearn : ws.learn env = .ok k)
    (hnames : nameDocuments .empty .empty ws.store.toList = (uris, .ok sources))
    (hopen : uri ∈ ws.store.openUris) {n m : String} (hname : sourceNameFor uri = .ok n)
    (hm : m ∈ (importGraph k.program).reach [] [n]) :
    ws.IsNeeded env sources m ∧
      ∀ a ∈ (ws.origin env sources).imports m, a ∈ (importGraph k.program).reach [] [n] := by
  simp only [ImportGraph.mem_reach_iff, List.mem_singleton, exists_eq_left] at hm ⊢
  have hneeded : ws.IsNeeded env sources m := by
    induction hm with
    | refl => exact isNeeded_of_isOpen hopen hname
    | tail _ himport ih =>
      exact ih.import (importsOf_of_learn henv hformed hlearn hnames ih ▸ himport)
  refine ⟨hneeded, fun a ha => hm.tail ?_⟩
  show a ∈ (importGraph k.program).importsOf m
  rw [importsOf_of_learn henv hformed hlearn hnames hneeded]
  exact ha

/-- Workspaces with the same settings agree on what an open document leads to in one of them, if the
texts of all that are the same. -/
theorem agrees_of_reach (henv : env.IsToy budget)
    (hconfiguration : ws'.configuration = ws.configuration) (hbase : ws'.base = ws.base)
    (hformed : ws'.store.IsFormed) (hlearn : ws'.learn env = .ok k')
    (hnames : nameDocuments .empty .empty ws'.store.toList = (uris', .ok sources'))
    (hopen : uri ∈ ws'.store.openUris) {n : String} (hname : sourceNameFor uri = .ok n)
    (hsame : ∀ m ∈ (importGraph k'.program).reach [] [n], sources'.find? m = sources.find? m) :
    (ws'.origin env sources').Agrees (· ∈ (importGraph k'.program).reach [] [n])
      (ws.origin env sources) where
  rules := congrArg Configuration.remappings hconfiguration.symm
  sources m hm := (hsame m hm).symm
  answer m hm := by
    show answer env.files ws sources sourceKind m = answer env.files ws' sources' sourceKind m
    rw [answer_congr env.files hconfiguration hbase]
    unfold answer
    rw [hsame m hm]
  closed m hm := (isNeeded_of_mem_reach henv hformed hlearn hnames hopen hname hm).2

/-- What an open document leads to in a workspace is needed in another one that agrees on it. -/
theorem isNeeded_of_agrees (henv : env.IsToy budget) (hformed : ws'.store.IsFormed)
    (hlearn : ws'.learn env = .ok k')
    (hnames : nameDocuments .empty .empty ws'.store.toList = (uris', .ok sources'))
    (hopen : uri ∈ ws'.store.openUris) (hopen' : uri ∈ ws.store.openUris) {n : String}
    (hname : sourceNameFor uri = .ok n)
    (hagrees : (ws'.origin env sources').Agrees (· ∈ (importGraph k'.program).reach [] [n])
      (ws.origin env sources)) {m : String} (hm : m ∈ (importGraph k'.program).reach [] [n]) :
    ws.IsNeeded env sources m := by
  obtain ⟨_, rfl, hpath⟩ : ∃ a, a = n ∧ ReflTransGen _ a m := by
    simpa using (ImportGraph.mem_reach_iff _ _ _).1 hm
  clear hm
  induction hpath with
  | refl => exact isNeeded_of_isOpen hopen' hname
  | @tail a b hpath himport ih =>
    have ha : a ∈ (importGraph k'.program).reach [] [_] :=
      (ImportGraph.mem_reach_iff _ _ _).2 ⟨_, List.mem_singleton.2 rfl, hpath⟩
    have hneeded := (isNeeded_of_mem_reach henv hformed hlearn hnames hopen hname ha).1
    refine ih.import ?_
    rw [hagrees.imports ha, ← importsOf_of_learn henv hformed hlearn hnames hneeded]
    exact himport

/-- When a document is opened, those that do not lead to it keep the diagnostics that a compilation
yields for them. -/
theorem compiledDiagnostics_track (henv : env.IsToy budget) (hformed : ws.store.IsFormed)
    {language : Json} {version : Option Int} {content : String}
    (hstore : ws'.store = ws.store.track opened language version content)
    (hconfiguration : ws'.configuration = ws.configuration) (hbase : ws'.base = ws.base)
    (hopen : uri ∈ ws.store.openUris) (hlearn : ws.learn env = .ok k)
    (hlearn' : ws'.learn env = .ok k') (h : Spares env opened uri ws ws') :
    ((compiledDiagnostics env uri).run ws').result = ((compiledDiagnostics env uri).run ws).result := by
  have hformed' : ws'.store.IsFormed := hstore ▸ hformed.track _ _ _ _
  have hopen' : uri ∈ ws'.store.openUris := by
    rw [hstore]
    exact DocumentStore.mem_openUris_track hopen _ _ _ _
  obtain ⟨sources, hnames⟩ := named_of_learn hlearn
  obtain ⟨sources', hnames'⟩ := named_of_learn hlearn'
  obtain ⟨name, hname⟩ := exists_name_of_tracked hformed' hnames'
    (hstore ▸ ws.store.contains_track _ _ _ _)
  obtain ⟨n, huri⟩ := exists_name_of_tracked hformed hnames (hformed.tracked uri hopen)
  have hleads : ((importGraph k'.program).reach [] [n]).contains name = false := by
    simpa only [leadsTo, hlearn', huri] using h.leads name hname
  -- What the document leads to after the opening has not changed.
  have hsame (m : String) (hm : m ∈ (importGraph k'.program).reach [] [n]) :
      k'.uris.find? m = k.uris.find? m ∧ sources'.find? m = sources.find? m := by
    refine find?_nameDocuments_track hformed hname hnames (hstore ▸ hnames') ?_
    rintro rfl
    rw [List.contains_iff_mem.2 hm] at hleads
    cases hleads
  have hagrees := agrees_of_reach henv hconfiguration hbase hformed' hlearn' hnames' hopen' huri
    fun m hm => (hsame m hm).2
  have hneeded' (m : String) (hm : m ∈ (importGraph k'.program).reach [] [n]) :=
    isNeeded_of_mem_reach henv hformed' hlearn' hnames' hopen' huri hm
  have hneeded (m : String) (hm : m ∈ (importGraph k'.program).reach [] [n]) :=
    isNeeded_of_agrees henv hformed' hlearn' hnames' hopen' hopen huri hagrees hm
  have hcompiled (m : String) (hm : m ∈ (importGraph k'.program).reach [] [n]) :
      k.program.units.contains m = k'.program.units.contains m := by
    rw [contains_of_isNeeded_of_learn henv hformed hlearn hnames (hneeded m hm),
      contains_of_isNeeded_of_learn henv hformed' hlearn' hnames' (hneeded' m hm).1, hagrees.has hm]
  have hnone : k'.program.units.contains "" = true ∨ k.program.units.contains "" = true → False := by
    have hbefore := h.nameless
    have hafter := h.nameless'
    simp only [compiles, hlearn, hlearn'] at hbefore hafter
    simp [hbefore, hafter]
  obtain ⟨r, hnear, hmirrors⟩ := exists_mirrors henv hlearn' hlearn hnames' hnames hagrees
    (fun m hm => (hsame m hm).1.symm) hcompiled fun hcontains => absurd hcontains hnone
  have hself : n ∈ (importGraph k'.program).reach [] [n] :=
    (ImportGraph.mem_reach_iff _ _ _).2 ⟨n, List.mem_singleton.2 rfl, .refl⟩
  have hn : r.Near n := (hnear n).2 ⟨hself,
    contains_of_tracked henv hformed' hlearn' (hformed'.tracked uri hopen') huri⟩
  have hapart := h.apart
  have hapart' := h.apart'
  simp only [keepsApart, hlearn, hlearn', huri] at hapart hapart'
  rw [result_compiledDiagnostics, result_compiledDiagnostics, hlearn, hlearn']
  exact (hmirrors.diagnostics hn hapart' hapart).symm

/-! ## Opening a document -/

theorem compiledDiagnostics_congr (henv : env.IsUniform) (h : SameTask ws ws') (uri : String) :
    ((compiledDiagnostics env uri).run ws').result = ((compiledDiagnostics env uri).run ws).result := by
  rw [result_compiledDiagnostics, result_compiledDiagnostics, learn_congr henv h]

theorem exists_learn_of_compiledDiagnostics {diagnostics : List Diagnostic}
    (h : ((compiledDiagnostics env uri).run ws).result = .ok diagnostics) :
    ∃ k, ws.learn env = .ok k := by
  rw [result_compiledDiagnostics] at h
  cases hlearn : ws.learn env with
  | ok k => exact ⟨k, rfl⟩
  | error e =>
    rw [hlearn] at h
    cases h

/-- Opening a document publishes, besides other things, what a compilation with it yields for it, and
nothing else. -/
theorem openDocument_eq_ok {d : Params.Opened} (h : ((openDocument env d).run ws).result = .ok ()) :
    ∃ ws₁, ws₁ = { ws with store := ws.store.track d.uri d.language (some d.version) d.content } ∧
      SameTask ws₁ ((openDocument env d).run ws).state ∧
      ∃ asides diagnostics, ((compiledDiagnostics env d.uri).run ws₁).result = .ok diagnostics ∧
        ((openDocument env d).run ws).said.map (·.1) =
          asides ++ [.publish d.uri (some d.version) diagnostics] ∧
        ∀ e ∈ asides, e.IsAside := by
  refine ⟨_, rfl, ?_⟩
  generalize hws₁ : ({ ws with store := ws.store.track d.uri d.language (some d.version) d.content } :
    Workspace) = ws₁
  obtain ⟨document, hget, hversion⟩ : ∃ document, ws₁.store.get d.uri = .ok document ∧
      document.version = some d.version := by
    subst hws₁
    exact ws.store.exists_get_track d.uri d.language (some d.version) d.content
  have htaken : (Action.ofExcept Fault.store (.ok document)).run ws₁ = ⟨[], .ok document, ws₁⟩ := rfl
  unfold openDocument validate at h ⊢
  rw [Action.run_bind_silent (Action.run_update _ _), hws₁,
    Action.run_bind_silent (Action.run_state ws₁), hget, Action.run_bind_silent htaken] at h ⊢
  have hcompile := discreet_compile env ws₁
  cases hcompiled : (compile env).run ws₁ with
  | mk said result ws₂ =>
    rw [hcompiled] at hcompile
    cases result with
    | error e =>
      rw [Action.run_bind_error hcompiled] at h
      cases h
    | ok program =>
      rw [Action.run_bind_ok hcompiled] at h ⊢
      have hsort := discreet_diagnosticsByUri env program ws₂
      cases hsorted : (diagnosticsByUri env program).run ws₂ with
      | mk said' result' ws₃ =>
        rw [hsorted] at hsort
        cases result' with
        | error e =>
          rw [Action.run_bind_error hsorted] at h
          cases h
        | ok t =>
          rw [Action.run_bind_ok hsorted]
          have hkeeps : Keeps ws₁ ws₃ := Keeps.trans _ _ _ hcompile.2 hsort.2
          refine ⟨⟨hkeeps.store, hkeeps.configuration, hkeeps.base⟩, (said ++ said').map (·.1),
            diagnosticsOf t d.uri, ?_, ?_, fun e he => ?_⟩
          · unfold compiledDiagnostics
            rw [Action.run_bind_ok hcompiled, Action.run_bind_pure, hsorted]
            rfl
          · rw [hversion]
            simp only [List.map_append, List.append_assoc]
            rfl
          · obtain ⟨entry, hentry, rfl⟩ := List.mem_map.1 he
            rcases List.mem_append.1 hentry with hentry | hentry
            · exact (hcompile.1 entry hentry).1
            · exact (hsort.1 entry hentry).1

end LanguageServer.Workspace
