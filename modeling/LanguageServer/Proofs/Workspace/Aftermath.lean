import LanguageServer.Proofs.Workspace.Compiled
import LanguageServer.Proofs.Workspace.Publishing
import LanguageServer.Proofs.Workspace.Settling

/-!
# After a compilation that failed

A compilation replaces the texts and the URIs of the sources before the engine runs, but
the latest program only after it.  If the engine breaks down, the latest program is read
in the new texts.  Where the documents have not changed since that program was made, these
are the old texts, except that those read from disk are gone.  So a query is answered as
before unless it looks up a source that was read from disk and in which no place has been
translated yet: the indexes that are kept survive.

## Main definitions

* `Workspace.Works` — what an engine at work leaves alone.
* `Workspace.Used` — the workspaces that come of dealing with them.
* `Workspace.IsFleeting` — a source whose text is gone after a failed compilation.
* `Workspace.KeepsAnswer` — a query is answered in one workspace as in another.

## Main statements

* `Workspace.Used.isTraced` — the latest program of unchanged documents has their names and texts.
* `Workspace.Used.keepsAnswers` — which answers survive a failed compilation.
-/

namespace LanguageServer

/-! ## Actions that fail -/

/-- Wherever the action stops before it succeeds, the state is related to that at the start. -/
def Action.FailsWithin {σ α : Type} (R : σ → σ → Prop) (a : Action σ α) : Prop :=
  ∀ s, (∀ entry ∈ (a.run s).said, R s entry.2) ∧
    ∀ f, (a.run s).result = .error f → R s (a.run s).state

namespace Action.FailsWithin

variable {σ α β κ : Type} {R : σ → σ → Prop}

/-- An action that says nothing and succeeds. -/
theorem silent {a : Action σ α} (h : ∀ s, ∃ x s', a.run s = ⟨[], .ok x, s'⟩) : FailsWithin R a := by
  intro s
  obtain ⟨x, s', hrun⟩ := h s
  simp [hrun]

theorem bind (htrans : ∀ s s' s'', R s s' → R s' s'' → R s s'') {a : Action σ α}
    {f : α → Action σ β} (ha : a.Within R fun _ => True) (hf : ∀ x, FailsWithin R (f x)) :
    FailsWithin R (a >>= f) := by
  intro s
  obtain ⟨hs, hend⟩ := ha s
  rw [run_bind]
  cases hr : a.run s with
  | mk said result s' =>
    rw [hr] at hs hend
    cases result with
    | error e => exact ⟨fun entry hentry => (hs entry hentry).2, fun _ _ => hend⟩
    | ok x =>
      obtain ⟨hs', hend'⟩ := hf x s'
      refine ⟨fun entry hentry => ?_, fun e he => htrans _ _ _ hend (hend' e he)⟩
      rcases List.mem_append.1 hentry with h | h
      · exact (hs entry h).2
      · exact htrans _ _ _ hend (hs' entry h)

/-- Whether it fails itself or what it says cannot be delivered. -/
theorem deliver {a : Action σ α} (ha : FailsWithin R a) {s : σ} {recipient : Recipient κ} {k : κ}
    (hfail : ((a.run s).deliver recipient k).2.1.isOk = false) :
    R s ((a.run s).deliver recipient k).2.2 := by
  rcases (a.run s).deliver_cases recipient k with h | ⟨entry, hmem, k₁, k₂, f, -, h⟩
  · rw [h] at hfail ⊢
    cases hresult : (a.run s).result with
    | ok x => simp [hresult, Except.isOk, Except.toBool] at hfail
    | error f => exact (ha s).2 f hresult
  · rw [h]
    exact (ha s).1 entry hmem

end Action.FailsWithin

namespace Workspace

variable {env : Environment} {ws ws' : Workspace} {uris texts : Table String String}

/-! ## The engine at work -/

/-- The documents, the latest program and what it was made of are the same. -/
structure KeepsTexts (ws ws' : Workspace) : Prop where
  store : ws'.store = ws.store
  snapshot : ws'.snapshot = ws.snapshot
  uris : ws'.uris = ws.uris
  sources : ws'.sources = ws.sources

theorem KeepsTexts.refl (ws : Workspace) : KeepsTexts ws ws := ⟨rfl, rfl, rfl, rfl⟩

theorem KeepsTexts.trans (ws ws' ws'' : Workspace) (h : KeepsTexts ws ws')
    (h' : KeepsTexts ws' ws'') : KeepsTexts ws ws'' :=
  ⟨h'.store.trans h.store, h'.snapshot.trans h.snapshot, h'.uris.trans h.uris,
    h'.sources.trans h.sources⟩

/-- What an engine at work leaves alone: these, and the kept indexes. -/
structure Works (ws ws' : Workspace) : Prop extends KeepsTexts ws ws' where
  indexes : ws'.indexes = ws.indexes

theorem Works.refl (ws : Workspace) : Works ws ws := ⟨.refl ws, rfl⟩

theorem Works.trans (ws ws' ws'' : Workspace) (h : Works ws ws') (h' : Works ws' ws'') :
    Works ws ws'' :=
  ⟨h.toKeepsTexts.trans _ _ _ h'.toKeepsTexts, h'.indexes.trans h.indexes⟩

theorem works_serveSource (files : FileSystem) (kind path : String) :
    (serveSource files kind path).Within Works fun _ => True := by
  unfold serveSource
  split
  · exact .pure Works.refl _
  · refine .bind Works.trans (.state Works.refl) fun ws => ?_
    split
    · exact .pure Works.refl _
    · refine .bind Works.trans (.ofExcept Works.refl _ _) fun outcome =>
        .bind Works.trans (.update fun ws => ?_) fun _ => .pure Works.refl _
      cases outcome <;> exact ⟨⟨rfl, rfl, rfl, rfl⟩, rfl⟩

theorem works_serve (files : FileSystem) (c : Compilation) :
    (serve files c).Within Works fun _ => True := by
  induction c with
  | done program => exact .pure Works.refl program
  | failed reason => exact .stop Works.refl _
  | unfinished => exact .stop Works.refl _
  | ask kind path next ih =>
    exact .bind Works.trans (works_serveSource files kind path) fun outcome =>
      .bind Works.trans (.say Works.refl trivial) fun _ => ih outcome

theorem works_offerVersion (engine : Engine) (version : Option String) :
    (offerVersion engine version).Within Works fun _ => True := by
  unfold offerVersion
  split
  · exact .pure Works.refl _
  · refine .bind Works.trans (.state Works.refl) fun ws => ?_
    split
    · exact .bind Works.trans (.update fun _ => ⟨⟨rfl, rfl, rfl, rfl⟩, rfl⟩) fun _ =>
        .bind Works.trans (.say Works.refl trivial) fun _ => .pure Works.refl _
    · exact .pure Works.refl _

/-- The part of a compilation in which the engine works, with what follows it. -/
def engage (env : Environment) (configuration : Configuration) (n : Nat)
    (texts : Table String String) : Action Workspace Program := do
  let engine := env.engines n
  Action.say (.engine (.sources texts))
  Action.say (.engine (.remappings configuration.remappings))
  Action.say (.engine (.targetVersion configuration.targetVersion))
  let targetVersion ← offerVersion engine configuration.targetVersion
  let program ← serve env.files
    (engine.compile { sources := texts, remappings := configuration.remappings, targetVersion })
  Action.update (·.settle program)
  return program

theorem failsWithin_engage (env : Environment) (configuration : Configuration) (n : Nat)
    (texts : Table String String) : (engage env configuration n texts).FailsWithin Works :=
  have hsay (e : Effect) : (Action.say e : Action Workspace Unit).Within Works fun _ => True :=
    .say Works.refl trivial
  .bind Works.trans (hsay _) fun _ => .bind Works.trans (hsay _) fun _ =>
    .bind Works.trans (hsay _) fun _ => .bind Works.trans (works_offerVersion _ _) fun _ =>
      .bind Works.trans (works_serve _ _) fun _ => .silent fun _ => ⟨_, _, rfl⟩

/-- A compilation first takes up the names and the texts of the documents, if they have any. -/
theorem run_compile_named (env : Environment)
    (h : nameDocuments .empty .empty ws.store.toList = (uris, .ok texts)) :
    (compile env).run ws = (engage env ws.configuration ws.compilations texts).run
      { ws with
        uris, sources := texts, readTexts := .empty, readFailures := .empty
        compilations := ws.compilations + 1 } := by
  unfold compile
  rw [Action.run_bind_silent (Action.run_state ws)]
  simp only [h]
  rw [Action.run_bind_silent (Action.run_update _ _)]
  rw [Action.run_bind_silent (show (Action.ofExcept Fault.uri (.ok texts)).run _ = ⟨[], .ok texts, _⟩
    from rfl)]
  rw [Action.run_bind_silent (Action.run_update _ _)]
  rfl

/-! ## Workspaces in use -/

/-- The latest compilation saw no later documents; if it saw them as they are, the URIs of the
sources are still those of the documents, and so are the texts, besides what was read from disk. -/
structure IsTraced (ws : Workspace) : Prop where
  bounded : ∀ s, ws.snapshot = some s → s.generation ≤ ws.store.generation
  named : ∀ s, ws.snapshot = some s → s.generation = ws.store.generation →
    ∃ texts, nameDocuments .empty .empty ws.store.toList = (ws.uris, .ok texts) ∧
      ∀ n, texts.contains n = true → ws.sources.find? n = texts.find? n

theorem isTraced_empty : empty.IsTraced := by
  constructor <;> simp [empty]

theorem KeepsTexts.isTraced (h : KeepsTexts ws ws') (hws : ws.IsTraced) : ws'.IsTraced where
  bounded := by
    rw [h.snapshot, h.store]
    exact hws.bounded
  named := by
    rw [h.snapshot, h.store, h.uris, h.sources]
    exact hws.named

/-- Documents that have changed since may be whatever they are. -/
theorem IsTraced.newer (h : ws.IsTraced) {store : DocumentStore}
    (hnewer : store = ws.store ∨ ws.store.generation < store.generation) :
    ({ ws with store } : Workspace).IsTraced := by
  rcases hnewer with rfl | hnewer
  · exact h
  · have hlt (s : Snapshot) (hs : ws.snapshot = some s) : s.generation < store.generation :=
      Nat.lt_of_le_of_lt (h.bounded s hs) hnewer
    exact ⟨fun s hs => Nat.le_of_lt (hlt s hs), fun s hs heq => absurd heq (Nat.ne_of_lt (hlt s hs))⟩

/-- Once the names and the texts of the documents were taken up, the workspace is traced, whether or
not the engine comes to an end. -/
theorem Works.isTraced (hws : ws.IsTraced)
    (hnames : nameDocuments .empty .empty ws.store.toList = (uris, .ok texts))
    (h : Works { ws with uris, sources := texts } ws') : ws'.IsTraced where
  bounded := by
    rw [h.snapshot, h.store]
    exact hws.bounded
  named _ _ _ := by
    rw [h.uris, h.store, h.sources]
    exact ⟨texts, hnames, fun _ _ => rfl⟩

/-- No text that the engine was handed is read from disk. -/
theorem find?_readTextsOf_of_contains {n : String} (h : texts.contains n = true)
    (exchanges : List Exchange) : (readTextsOf texts .empty exchanges).find? n = none := by
  have hother : ∀ x ∈ exchanges.filter (Reaches texts), x.path ≠ n := by
    rintro x hx rfl
    have hreach := (List.mem_filter.1 hx).2
    simp [Reaches, h] at hreach
  have hsame : ∀ x ∈ exchanges.filter (Reaches texts), x.path = n → x.outcome = .ok "" :=
    fun x hx heq => absurd heq (hother x hx)
  unfold readTextsOf
  rw [find?_foldl_note (f := Except.toOption) (fun t x => ?_) hsame]
  · have hnone : ¬ ∃ x ∈ exchanges.filter (Reaches texts), x.path = n := by
      rintro ⟨x, hx, heq⟩
      exact hother x hx heq
    rw [if_neg hnone]
    rfl
  · cases x.outcome <;> simp [Except.toOption]

theorem isTraced_absorb {k : Knowledge} (hlearn : ws.learn env = .ok k) : (ws.absorb k).IsTraced where
  bounded s hs := by
    obtain rfl : (⟨k.program, ws.store.generation⟩ : Snapshot) = s := Option.some.inj hs
    exact Nat.le_refl _
  named _ _ _ := by
    obtain ⟨texts, hnames⟩ := named_of_learn hlearn
    refine ⟨texts, hnames, fun n hn => ?_⟩
    unfold learn at hlearn
    simp only [hnames] at hlearn
    cases hinquire : (ws.inquire env texts).2 with
    | error f => simp [hinquire, Except.map] at hlearn
    | ok program =>
      simp only [hinquire, Except.map, Except.ok.injEq] at hlearn
      show k.sources.find? n = _
      rw [← hlearn, Table.find?_foldl_insert (nodup_readTextsOf _ _),
        find?_readTextsOf_of_contains hn]
      rfl

/-- A compilation leaves a workspace traced, wherever it stops. -/
theorem compile_traces (env : Environment) :
    (compile env).Steady (fun _ => True) IsTraced := by
  intro ws h
  cases hnames : nameDocuments .empty .empty ws.store.toList with
  | mk uris named =>
    cases named with
    | error e =>
      rw [run_compile_of_unnamed env hnames]
      refine ⟨by simp, h.bounded, fun s hs heq => ?_⟩
      obtain ⟨texts, hnamed, -⟩ := h.named s hs heq
      rw [hnames] at hnamed
      cases hnamed
    | ok texts =>
      obtain ⟨hsaid, hfailed⟩ := failsWithin_engage env ws.configuration ws.compilations texts
        { ws with
          uris, sources := texts, readTexts := .empty, readFailures := .empty
          compilations := ws.compilations + 1 }
      rw [← run_compile_named env hnames] at hsaid hfailed
      have htraced {w : Workspace} (hw : Works
          { ws with
            uris, sources := texts, readTexts := .empty, readFailures := .empty
            compilations := ws.compilations + 1 } w) : w.IsTraced :=
        Works.isTraced h hnames ⟨⟨hw.store, hw.snapshot, hw.uris, hw.sources⟩, hw.indexes⟩
      refine ⟨fun entry hentry _ => htraced (hsaid entry hentry), ?_⟩
      cases hlearn : ws.learn env with
      | error f => exact htraced (hfailed f (run_compile_of_learn_error hlearn).1)
      | ok k =>
        rw [(run_compile_of_learn hlearn).2]
        refine KeepsTexts.isTraced ?_ (isTraced_absorb hlearn)
        unfold noteVersion
        split <;> exact ⟨rfl, rfl, rfl, rfl⟩

theorem keepsTexts_of_reads {α : Type} {a : Action Workspace α} {f : View → Except Fault α}
    (h : Reads a f) : a.Within KeepsTexts fun _ => True := by
  intro ws
  obtain ⟨ws', hrun, indexes, rfl, -⟩ := h ws
  rw [hrun]
  exact ⟨by simp, rfl, rfl, rfl, rfl⟩

theorem diagnosticsByUri_keepsTexts (env : Environment) (program : Program) :
    (diagnosticsByUri env program).Within KeepsTexts fun _ => True := by
  have hsorted (l : List Finding) (t : DiagnosticTable) :
      (sortFindings env.reporter t l).Within KeepsTexts fun _ => True := by
    induction l generalizing t with
    | nil => exact .pure KeepsTexts.refl t
    | cons f rest ih =>
      refine .bind KeepsTexts.trans (keepsTexts_of_reads (reads_toDiagnostic env.reporter f)) fun d => ?_
      split
      · exact .bind KeepsTexts.trans (keepsTexts_of_reads (reads_uriOf _)) fun _ => ih _
      · exact .bind KeepsTexts.trans (.say KeepsTexts.refl trivial) fun _ => ih t
  exact .bind KeepsTexts.trans (.state KeepsTexts.refl) fun _ => hsorted _ _

/-- An action that keeps the texts leaves a workspace traced. -/
theorem traces_of_keepsTexts {α : Type} {a : Action Workspace α}
    (ha : a.Within KeepsTexts fun _ => True) : a.Steady (fun _ => True) IsTraced :=
  fun ws h => ⟨fun entry hentry _ => ((ha ws).1 entry hentry).2.isTraced h, (ha ws).2.isTraced h⟩

theorem publish_traces (uri : String) (version : Option Int) (diagnostics : List Diagnostic) :
    (publish uri version diagnostics).Steady (fun _ => True) IsTraced :=
  publish_steady (fun _ _ h => ⟨h.bounded, h.named⟩) uri version diagnostics

theorem validate_traces (env : Environment) (uri : String) :
    (validate env uri).Steady (fun _ => True) IsTraced :=
  .bind .state fun _ => .bind (.ofExcept _ _) fun _ => .bind (compile_traces env) fun program =>
    .bind (traces_of_keepsTexts (diagnosticsByUri_keepsTexts env program)) fun _ =>
      publish_traces _ _ _

theorem validateAll_traces (env : Environment) :
    (validateAll env).Steady (fun _ => True) IsTraced :=
  .bind (compile_traces env) fun program =>
    .bind (traces_of_keepsTexts (diagnosticsByUri_keepsTexts env program)) fun _ =>
      .bind .state fun _ => .forAll (fun _ => .bind .state fun _ => publish_traces _ _ _) _

theorem upToDate_traces (env : Environment) : (upToDate env).Steady (fun _ => True) IsTraced := by
  refine .bind .state fun ws => ?_
  split
  · split
    · exact .pure _
    · exact compile_traces env
  · exact compile_traces env

end Workspace

/-- The operation changes documents only together with their generation. -/
def Operation.Counts : Operation → Prop
  | mutate change => ∀ s s', change s = .ok s' → s' = s ∨ s.generation < s'.generation
  | _ => True

namespace Operation

open Workspace

theorem counts_track (uri : String) (language : Json) (version : Option Int) (content : String) :
    (mutate fun s => .ok (s.track uri language version content)).Counts := by
  rintro s _ ⟨rfl⟩
  exact .inr (Nat.lt_succ_self _)

theorem counts_applyEdits (uri : String) (version : Option Int) (edits : List Edit) :
    (mutate fun s => s.applyEdits uri version edits).Counts :=
  fun s s' h => .inr (by have := DocumentStore.generation_applyEdits h; omega)

theorem counts_close (uri : String) : (mutate fun s => s.close uri).Counts :=
  fun s s' h => .inr (by have := DocumentStore.generation_close h; omega)

theorem counts_evict (uris : List String) : (mutate fun s => .ok (s.evict uris).1).Counts := by
  rintro s _ ⟨rfl⟩
  exact (s.evict_cases uris).imp id fun h => by omega

/-- An operation leaves a workspace traced, wherever it stops. -/
theorem action_traces (env : Environment) {op : Operation} (h : op.Counts) :
    (op.action env).Steady (fun _ => True) IsTraced := by
  cases op with
  | mutate change =>
    refine .state_bind fun ws hws => .ofExcept_bind (fun store hstore => ?_) fun s hs => hs ▸ hws
    refine .update fun s hs => ?_
    subst hs
    exact hws.newer (h _ _ hstore)
  | configure configuration => exact .update fun _ h => ⟨h.bounded, h.named⟩
  | setBase base => exact .update fun _ h => ⟨h.bounded, h.named⟩
  | compile => exact .bind (compile_traces env) fun _ => .pure _
  | snapshot => exact .bind (upToDate_traces env) fun _ => .pure _
  | validate uri => exact validate_traces env uri
  | validateAll => exact validateAll_traces env
  | clear uri => exact .bind .state fun _ => publish_traces _ _ _
  | collectGarbage =>
    exact .bind (collectGarbage_steady (fun _ _ h => ⟨h.bounded, h.named⟩)
      fun ws garbage h => h.newer ((ws.store.evict_cases garbage).imp id fun hlt => by omega))
        fun _ => .pure _

end Operation

namespace Workspace

variable {env : Environment} {ws ws' : Workspace} {uris texts : Table String String}

/-- The workspaces that come of dealing with them: by operations, any of which may fail or be cut
short because something cannot be delivered, and by looking places up.  Files and engines may be
others each time. -/
inductive Used : Workspace → Prop
  | empty : Used .empty
  | perform {κ : Type} {ws : Workspace} (h : Used ws) (env : Environment) (op : Operation)
      (hop : op.Counts) (recipient : Recipient κ) (k : κ) :
      Used (((op.action env).run ws).deliver recipient k).2.2
  | lookUp {ws ws' : Workspace} (h : Used ws) (hrecall : Recalls ws ws') : Used ws'

theorem Used.isTraced (h : ws.Used) : ws.IsTraced := by
  induction h with
  | empty => exact isTraced_empty
  | @perform κ ws _ env op hop recipient k ih =>
    obtain ⟨hsaid, hend⟩ := op.action_traces env hop ws ih
    rcases ((op.action env).run ws).deliver_cases recipient k with h | ⟨entry, hmem, _, _, _, -, h⟩
    · rw [h]
      exact hend
    · rw [h]
      exact hsaid entry hmem trivial
  | lookUp _ hrecall ih =>
    obtain ⟨indexes, rfl, -⟩ := hrecall
    exact ⟨ih.bounded, ih.named⟩

/-! ## What survives -/

/-- The text of the source was read from disk, and no place in it has been translated since. -/
structure IsFleeting (ws : Workspace) (name : String) : Prop where
  known : ws.sources.contains name = true
  untranslated : ws.indexes.contains name = false
  untracked : ∀ d ∈ ws.store.toList, sourceNameFor d.uri ≠ .ok name

theorem KeepsIndexOf.not_isFleeting {name : String} (h : ws.KeepsIndexOf name) :
    ¬ ws.IsFleeting name := by
  intro hfleeting
  have hnone := (Table.contains_eq_false_iff _ _).1 hfleeting.untranslated
  obtain ⟨text, htext⟩ := Option.isSome_iff_exists.1 hfleeting.known
  rw [KeepsIndexOf, lineIndex?, hnone, htext] at h
  cases h

/-- An engine at work on documents that have not changed leaves the indexes of all sources but the
fleeting ones. -/
theorem Works.lineIndex?_eq
    (hnames : nameDocuments .empty .empty ws.store.toList = (uris, .ok texts))
    (htexts : ∀ n, texts.contains n = true → ws.sources.find? n = texts.find? n)
    (h : Works { ws with uris, sources := texts } ws') {n : String} (hn : ¬ ws.IsFleeting n) :
    ws'.lineIndex? n = ws.lineIndex? n := by
  have hindexes : ws'.indexes = ws.indexes := h.indexes
  have hsources : ws'.sources = texts := h.sources
  unfold lineIndex?
  rw [hindexes, hsources]
  cases hindex : ws.indexes.find? n with
  | some index => rfl
  | none =>
    by_cases hgiven : texts.contains n = true
    · rw [htexts n hgiven]
    · have huntracked : ∀ d ∈ ws.store.toList, sourceNameFor d.uri ≠ .ok n := fun d hd hname =>
        hgiven ((contains_texts_iff hnames n).2 (.inr ⟨d, hd, hname⟩))
      have hunknown : ws.sources.contains n = false := by
        rw [← Bool.not_eq_true]
        exact fun hknown => hn ⟨hknown, (Table.contains_eq_false_iff _ _).2 hindex, huntracked⟩
      rw [(Table.contains_eq_false_iff _ _).1 hunknown,
        (Table.contains_eq_false_iff _ _).1 (Bool.eq_false_iff.2 hgiven)]

/-- An action that looks up some sources is answered as before if none of them is fleeting, and in
any case if it is what was just answered. -/
structure KeepsAnswer {α : Type} (ws ws' : Workspace) (a : Action Workspace α)
    (names : List String) : Prop where
  same : (∀ n ∈ names, ¬ ws.IsFleeting n) → (a.run ws').result = (a.run ws).result
  again : ∀ ws₀ x, (a.run ws₀).result = .ok x → (a.run ws₀).state = ws → (a.run ws').result = .ok x

/-- Looking up takes nothing but the URIs and the indexes of the listed sources. -/
theorem keepsAnswer_of_consults {α : Type} {a : Action Workspace α} {f : View → Except Fault α}
    {names : View → List String} (ha : Consults a f names) (huri : ws'.view.uri = ws.view.uri)
    (hindex : ∀ n, ¬ ws.IsFleeting n → ws'.lineIndex? n = ws.lineIndex? n) :
    KeepsAnswer ws ws' a (names ws.view) := by
  have hsame (hnames : ∀ n ∈ names ws.view, ¬ ws.IsFleeting n) :
      (a.run ws').result = (a.run ws).result := by
    rw [ha.reads.result_eq, ha.reads.result_eq]
    exact ha.only huri fun n hn => hindex n (hnames n hn)
  refine ⟨hsame, fun ws₀ x hx hstate => ?_⟩
  obtain ⟨ws₁, hrun, hrecall⟩ := ha.reads ws₀
  obtain rfl : ws₁ = ws := by rw [← hstate, hrun]
  rw [ha.reads.result_eq, ← hrecall.view_eq] at hx
  rw [hsame fun n hn => ?_, ha.reads.result_eq, hx]
  rw [hrecall.view_eq] at hn hx
  exact hstate ▸ (ha.keeps hx n hn).not_isFleeting

/-- The latest program is still the one that queries are answered from, and the answers are kept. -/
structure KeepsAnswers (program : Program) (ws ws' : Workspace) : Prop where
  latest : ∀ env, (upToDate env).run ws' = ⟨[], .ok program, ws'⟩
  definition : ∀ source p, KeepsAnswer ws ws' (Navigation.definition program source p)
    (ws.view.definitionSources program source p)
  references : ∀ source p, KeepsAnswer ws ws' (Navigation.references program source p)
    (ws.view.referenceSources program source p)
  highlights : ∀ source p, KeepsAnswer ws ws' (Navigation.highlights program source p)
    (ws.view.highlightSources program source p)

/-- A compilation of unchanged documents that does not succeed, whether the engine breaks down or
something cannot be delivered, leaves the latest program in place.  All queries are then answered as
before unless they look up a source that was read from disk and in which no place was translated
since that program was made; in particular a query that was just asked is. -/
theorem Used.keepsAnswers (h : ws.Used) {s : Snapshot} (hs : ws.snapshot = some s)
    (hcurrent : s.generation = ws.store.generation) {κ : Type} (recipient : Recipient κ) (k : κ)
    (hfail : (((compile env).run ws).deliver recipient k).2.1.isOk = false) :
    KeepsAnswers s.program ws (((compile env).run ws).deliver recipient k).2.2 := by
  obtain ⟨texts, hnames, htexts⟩ := h.isTraced.named s hs hcurrent
  rw [run_compile_named env hnames] at hfail ⊢
  have hworks := (failsWithin_engage env ws.configuration ws.compilations texts).deliver hfail
  generalize (((engage env ws.configuration ws.compilations texts).run _).deliver recipient k).2.2
    = ws' at hworks
  have hkeeps : Works { ws with uris := ws.uris, sources := texts } ws' :=
    ⟨⟨hworks.store, hworks.snapshot, hworks.uris, hworks.sources⟩, hworks.indexes⟩
  have huri : ws'.view.uri = ws.view.uri := by
    have huris : ws'.uris = ws.uris := hkeeps.uris
    funext n
    have hsame : ws'.uriFor n = ws.uriFor n := by
      unfold uriFor
      rw [huris]
    simp only [view, hsame]
  have hindex (n : String) (hn : ¬ ws.IsFleeting n) : ws'.lineIndex? n = ws.lineIndex? n :=
    hkeeps.lineIndex?_eq hnames htexts hn
  refine ⟨fun env' => ?_, fun source p => ?_, fun source p => ?_, fun source p => ?_⟩
  · have hsnapshot : ws'.snapshot = some s := hkeeps.snapshot.trans hs
    have hstore : ws'.store = ws.store := hkeeps.store
    unfold upToDate
    rw [Action.run_bind_silent (Action.run_state ws')]
    simp only [hsnapshot, hstore, hcurrent, if_true]
    rfl
  · exact keepsAnswer_of_consults (consults_definition s.program source p) huri hindex
  · exact keepsAnswer_of_consults (consults_references s.program source p) huri hindex
  · exact keepsAnswer_of_consults (consults_highlights s.program source p) huri hindex

/-! ## A source on disk -/

/-- A source on disk, and the toy engine. -/
def libraryEnvironment : Environment where
  files :=
    { files := .ofList [(["w", "lib.toy"], Text.encodeUtf8 "var f = 1;".toList)], links := .empty
      workingDirectory := [] }
  engines _ := Toy.engine 10
  reporter := "toy"

/-- A document that imports the source is compiled, and then a remapping is configured that makes
its path one that no file can have. -/
def librarySteps : List Operation :=
  [.setBase (some (.ofString "/w")),
    .mutate fun s => .ok (s.track "file:///w/a.toy" (.str "toy") none "import \"./lib.toy\";\nf;"),
    .compile,
    .configure { remappings := [⟨"", "./", "/\x00"⟩] }]

/-- Everything can be delivered. -/
def heeding : Recipient Unit := fun _ => pure ()

/-- The workspace that operations come to. -/
def workspaceAfter (env : Environment) (ops : List Operation) : Workspace :=
  ops.foldl (fun ws op => (((op.action env).run ws).deliver heeding ()).2.2) .empty

theorem used_workspaceAfter (env : Environment) {ops : List Operation} (h : ∀ op ∈ ops, op.Counts) :
    (workspaceAfter env ops).Used := by
  have hfold (ws : Workspace) (hws : ws.Used) :
      (ops.foldl (fun ws op => (((op.action env).run ws).deliver heeding ()).2.2) ws).Used := by
    induction ops generalizing ws with
    | nil => exact hws
    | cons op rest ih =>
      exact ih (fun op hop => h op (List.mem_cons_of_mem _ hop)) _
        (hws.perform env op (h op List.mem_cons_self) heeding ())
  exact hfold _ .empty

/-- The workspace with the source on disk. -/
def libraryWorkspace : Workspace := workspaceAfter libraryEnvironment librarySteps

/-- Asks the latest program where the symbol that the document uses is declared. -/
def askLibrary (ws : Workspace) : Run Workspace (List Location) :=
  match ws.snapshot with
  | some s => (Navigation.definition s.program "/w/a.toy" ⟨1, 0⟩).run ws
  | none => ⟨[], .ok [], ws⟩

/-- The declaration in the source on disk is found before and after the compilation that fails. -/
theorem keepsAnswers_library : ∃ program r,
    (Navigation.definition program "/w/a.toy" ⟨1, 0⟩).run libraryWorkspace = r ∧
      r.result = .ok [⟨"file:///w/lib.toy", ⟨⟨0, 4⟩, ⟨0, 5⟩⟩⟩] ∧
      (((compile libraryEnvironment).run r.state).deliver heeding ()).2.1.isOk = false ∧
      ((Navigation.definition program "/w/a.toy" ⟨1, 0⟩).run
        (((compile libraryEnvironment).run r.state).deliver heeding ()).2.2).result =
          .ok [⟨"file:///w/lib.toy", ⟨⟨0, 4⟩, ⟨0, 5⟩⟩⟩] := by
  have hanswer : (askLibrary libraryWorkspace).result =
      .ok [⟨"file:///w/lib.toy", ⟨⟨0, 4⟩, ⟨0, 5⟩⟩⟩] := by
    decide +kernel
  have hfail : (((compile libraryEnvironment).run
      (askLibrary libraryWorkspace).state).deliver heeding ()).2.1.isOk = false := by
    decide +kernel
  have hgeneration : libraryWorkspace.snapshot.map (·.generation) =
      some libraryWorkspace.store.generation := by
    decide +kernel
  have hused : libraryWorkspace.Used := by
    refine used_workspaceAfter _ fun op hop => ?_
    simp only [librarySteps, List.mem_cons, List.not_mem_nil, or_false] at hop
    rcases hop with rfl | rfl | rfl | rfl
    · trivial
    · exact Operation.counts_track _ _ _ _
    · trivial
    · trivial
  generalize libraryWorkspace = ws at hanswer hfail hgeneration hused ⊢
  obtain ⟨s, hs, hcurrent⟩ := Option.map_eq_some_iff.1 hgeneration
  have hask : askLibrary ws = (Navigation.definition s.program "/w/a.toy" ⟨1, 0⟩).run ws := by
    simp only [askLibrary, hs]
  rw [hask] at hanswer hfail
  refine ⟨s.program, _, rfl, hanswer, hfail, ?_⟩
  obtain ⟨ws', hrun, hrecall⟩ := reads_definition s.program "/w/a.toy" ⟨1, 0⟩ ws
  have hasked := hused.lookUp hrecall
  obtain ⟨indexes, rfl, -⟩ := hrecall
  rw [hrun] at hfail
  have hkeeps := hasked.keepsAnswers hs hcurrent heeding () hfail
  have hagain := (hkeeps.definition "/w/a.toy" ⟨1, 0⟩).again _ _ hanswer (by rw [hrun])
  rw [hrun]
  exact hagain

end Workspace

end LanguageServer
