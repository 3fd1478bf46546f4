import LanguageServer.Proofs.Workspace.Publishing
import LanguageServer.Proofs.Workspace.Retention

/-!
# When diagnostics can be published

Whichever documents are asked for, their diagnostics are published only after all documents
were compiled and all findings were sorted.  So one reason keeps the diagnostics of every
document back: some document has no name, the engine stops or asks for a path that no file
can have, or something was found in a source that has no URI.

## Main definitions

* `View.Places` — a source has a URI if it is known.
* `View.CanShow` — a finding can be shown.
* `Workspace.IsPresentable` — what a compilation of the documents finds can be shown.
* `Workspace.Falters` — why it is not, although all documents have names.

## Main statements

* `View.exists_sorted_iff` — findings can be sorted if all can be shown.
* `Workspace.exists_validateAll_iff`, `Workspace.exists_openDocument_iff` — diagnostics are
  published exactly if what is found can be shown.
-/

namespace LanguageServer

/-! ## Findings that can be shown -/

namespace View

/-- A source that is known has a URI. -/
def Places (v : View) (name : String) : Prop :=
  (v.index name).isSome → ∃ uri, v.uri name = .ok uri

/-- A finding can be shown: if it lies in a source that is known, then this source and those of the
places that belong to the finding have URIs. -/
def CanShow (v : View) (f : Finding) : Prop :=
  ∀ l, f.location = some l → (v.index l.source).isSome →
    v.Places l.source ∧ ∀ r ∈ f.related, v.Places r.location.source

variable {v : View}

theorem exists_location?_iff {l : SourceLocation} :
    (∃ x, v.location? l = .ok x) ↔ v.Places l.source := by
  unfold location? range? Places
  cases v.index l.source with
  | none => simp
  | some index => cases v.uri l.source <;> simp [Except.map]

theorem exists_relatedAll_iff {l : List RelatedPlace} :
    (∃ x, v.relatedAll l = .ok x) ↔ ∀ r ∈ l, v.Places r.location.source := by
  induction l with
  | nil => simp [relatedAll]
  | cons r rest ih =>
    rw [List.forall_mem_cons, ← ih, ← exists_location?_iff, relatedAll]
    cases v.location? r.location <;> cases v.relatedAll rest <;>
      simp [bind, Except.bind, pure, Except.pure]

/-- Findings can be sorted by document exactly if all of them can be shown. -/
theorem exists_sorted_iff (reporter : String) (t : Workspace.DiagnosticTable) {l : List Finding} :
    (∃ t', (v.sorted reporter t l).2 = .ok t') ↔ ∀ f ∈ l, v.CanShow f := by
  induction l generalizing t with
  | nil => simp [sorted]
  | cons f rest ih =>
    rw [List.forall_mem_cons, sorted]
    cases hl : f.location with
    | none => simp [diagnostic?, CanShow, hl, ih]
    | some location =>
      cases hindex : v.index location.source with
      | none => simp [diagnostic?, range?, CanShow, hl, hindex, ih]
      | some index =>
        have hrelated := exists_relatedAll_iff (v := v) (l := f.related)
        have hshow : v.CanShow f ↔ (∃ uri, v.uri location.source = .ok uri) ∧
            ∃ x, v.relatedAll f.related = .ok x := by
          simp [CanShow, Places, hl, hindex, hrelated]
        rw [hshow]
        cases hall : v.relatedAll f.related with
        | error e => simp [diagnostic?, range?, hl, hindex, hall, bind, Except.bind]
        | ok related =>
          simp only [diagnostic?, range?, hl, hindex, hall, Option.map_some, bind, Except.bind, pure,
            Except.pure]
          cases v.uri location.source with
          | error e => simp
          | ok uri => simp [ih]

end View

namespace Workspace

open Toy

variable {env : Environment} {ws : Workspace}

/-! ## Publishing -/

/-- A compilation of the documents finds something, and all of it can be shown. -/
def IsPresentable (env : Environment) (ws : Workspace) : Prop :=
  ∃ k, ws.learn env = .ok k ∧ ∀ f ∈ k.findings, k.view.CanShow f

theorem exists_compiledDiagnostics_iff (uri : String) :
    (∃ diagnostics, ((compiledDiagnostics env uri).run ws).result = .ok diagnostics) ↔
      ws.IsPresentable env := by
  rw [result_compiledDiagnostics]
  unfold IsPresentable
  cases ws.learn env with
  | error e => simp [Except.bind]
  | ok k =>
    simp only [Except.bind, Except.ok.injEq, exists_eq_left', Knowledge.diagnostics,
      ← View.exists_sorted_iff env.reporter .empty]
    cases (k.view.sorted env.reporter .empty k.findings).2 <;> simp [Except.map]

/-- What is done with the sorted diagnostics is done exactly if what is found can be shown. -/
theorem exists_sortedThen_iff {α : Type} {g : DiagnosticTable → Action Workspace α}
    (hg : ∀ t ws, ∃ x, ((g t).run ws).result = .ok x) :
    (∃ x, ((do
        let program ← compile env
        let t ← diagnosticsByUri env program
        g t : Action Workspace α).run ws).result = .ok x) ↔ ws.IsPresentable env := by
  rw [← exists_compiledDiagnostics_iff ""]
  unfold compiledDiagnostics
  cases hcompiled : (compile env).run ws with
  | mk said result ws' =>
    cases result with
    | error e => simp [Action.run_bind_error hcompiled]
    | ok program =>
      rw [Action.run_bind_ok hcompiled, Action.run_bind_ok hcompiled]
      cases hsorted : (diagnosticsByUri env program).run ws' with
      | mk said' result' ws'' =>
        cases result' with
        | error e => simp [Action.run_bind_error hsorted]
        | ok t =>
          rw [Action.run_bind_ok hsorted, Action.run_bind_ok hsorted]
          exact iff_of_true (hg t ws'') ⟨_, rfl⟩

theorem exists_forAll_publishFrom (t : DiagnosticTable) (targets : List String) (ws : Workspace) :
    ∃ u, ((Action.forAll (publishFrom t) targets).run ws).result = .ok u := by
  induction targets generalizing ws with
  | nil => exact ⟨(), rfl⟩
  | cons uri rest ih => exact ih (ws.notePublished uri (diagnosticsOf t uri))

/-- The diagnostics of all documents are published exactly if what is found can be shown. -/
theorem exists_validateAll_iff :
    (∃ u, ((validateAll env).run ws).result = .ok u) ↔ ws.IsPresentable env :=
  exists_sortedThen_iff fun t ws => exists_forAll_publishFrom t (ws.targets t) ws

/-- If what is found can be shown, then besides other things one list of diagnostics is published
for each tracked document, the one that a compilation yields for it, with the version of the
document. -/
theorem said_validateAll_of_isPresentable (hformed : ws.store.IsFormed) (h : ws.IsPresentable env) :
    ∃ (asides : List Effect) (targets : List String) (t : DiagnosticTable),
      ((validateAll env).run ws).said.map (·.1) =
        asides ++ targets.map (fun uri => .publish uri (ws.versionOf uri) (diagnosticsOf t uri)) ∧
      (∀ e ∈ asides, e.IsAside) ∧ targets.Nodup ∧
      (∀ uri d, ws.store.find? uri = some d → uri ∈ targets) ∧
      ∀ uri, ((compiledDiagnostics env uri).run ws).result = .ok (diagnosticsOf t uri) := by
  obtain ⟨u, hok⟩ := exists_validateAll_iff.2 h
  obtain ⟨program, t, asides, sorted, hprogram, ht, hkeep, hasides, hsaid⟩ := said_validateAll hok
  refine ⟨asides, sorted.targets t, t, ?_, hasides, nodup_targets sorted t, fun uri d hd => ?_,
    fun uri => ?_⟩
  · simp only [hsaid, versionOf, hkeep.store]
  · have hentry := Table.mem_entries_of_find? hd
    refine mem_targets.2 (.inl ⟨d, ?_, hformed.uri _ hentry⟩)
    rw [hkeep.store]
    exact List.mem_map_of_mem hentry
  · unfold compiledDiagnostics
    cases hcompiled : (compile env).run ws with
    | mk said result ws' =>
      rw [hcompiled] at hprogram ht
      obtain rfl : result = .ok program := hprogram
      rw [Action.run_bind_ok hcompiled, Action.run_bind_pure]
      simp only at ht
      rw [ht]
      rfl

/-- The workspace with other documents. -/
def holding (ws : Workspace) (store : DocumentStore) : Workspace := { ws with store }

/-- The workspace after a document was opened and before anything is compiled. -/
def tracking (ws : Workspace) (d : Params.Opened) : Workspace :=
  ws.holding (ws.store.track d.uri d.language (some d.version) d.content)

/-- The diagnostics of an opened document are published exactly if what is found, in this document
or in others, can be shown. -/
theorem exists_openDocument_iff {d : Params.Opened} :
    (∃ u, ((openDocument env d).run ws).result = .ok u) ↔ (ws.tracking d).IsPresentable env := by
  obtain ⟨document, hget, -⟩ :=
    ws.store.exists_get_track d.uri d.language (some d.version) d.content
  have htaken : (Action.ofExcept Fault.store (.ok document)).run (ws.tracking d) =
      ⟨[], .ok document, ws.tracking d⟩ := rfl
  rw [← exists_sortedThen_iff (g := fun t => publish d.uri document.version (diagnosticsOf t d.uri))
    fun _ _ => ⟨(), rfl⟩]
  unfold openDocument validate
  rw [Action.run_bind_silent (Action.run_update _ _)]
  change (∃ u, (Action.run _ (ws.tracking d)).result = .ok u) ↔ _
  rw [Action.run_bind_silent (Action.run_state _),
    show (ws.tracking d).store.get d.uri = .ok document from hget, Action.run_bind_silent htaken]

/-! ## Why diagnostics are kept back -/

/-- Although the documents have names, what a compilation of them finds cannot be shown: the engine
stops or asks for a path that no file can have, or something is found in a source without a URI. -/
inductive Falters (env : Environment) (ws : Workspace) : Prop
  | stopped {f : Fault} (hlearn : ws.learn env = .error f) (hf : f.stopsCompiling = true)
  | unplaced {k : Knowledge} {f : Finding} (hlearn : ws.learn env = .ok k) (hf : f ∈ k.findings)
      (hshow : ¬ k.view.CanShow f)

/-- A compilation of documents with names fails only because of a path or the engine. -/
theorem stopsCompiling_of_learn_eq_error (hformed : ws.store.IsFormed)
    (hnames : ws.TracksOnly IsNameable) {fault : Fault} (h : ws.learn env = .error fault) :
    fault.stopsCompiling = true := by
  obtain ⟨uris, sources, hnamed⟩ := hnames.exists_nameDocuments hformed
  rcases learn_eq_error h with hstops | ⟨e, -, hunnamed⟩
  · exact hstops
  · rw [hnamed] at hunnamed
    cases hunnamed

/-- If all documents have names, then what is found can be shown unless a compilation falters. -/
theorem isPresentable_iff_not_falters (hformed : ws.store.IsFormed)
    (hnames : ws.TracksOnly IsNameable) : ws.IsPresentable env ↔ ¬ ws.Falters env := by
  constructor
  · rintro ⟨k, hlearn, hshow⟩ (⟨hlearn', -⟩ | ⟨hlearn', hf, hnot⟩)
    · cases hlearn.symm.trans hlearn'
    · obtain rfl := Except.ok.inj (hlearn.symm.trans hlearn')
      exact hnot (hshow _ hf)
  · intro hfine
    cases hlearn : ws.learn env with
    | ok k => exact ⟨k, hlearn, fun f hf => by_contra fun hnot => hfine (.unplaced hlearn hf hnot)⟩
    | error f =>
      exact absurd (.stopped hlearn (stopsCompiling_of_learn_eq_error hformed hnames hlearn)) hfine

end Workspace

end LanguageServer
