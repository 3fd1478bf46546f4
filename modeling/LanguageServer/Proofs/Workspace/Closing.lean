import LanguageServer.Proofs.Workspace.Collection
import LanguageServer.Proofs.Workspace.Parallel

/-!
# What closing a document leaves to see

Closing a document may evict documents, but in those that are still open nothing changes:
definitions, highlights and diagnostics are the same right before the eviction and right
after it.

Two things may get in the way.  Items that import nothing count as imports of the source
without a name, so evicting the last document that leads to such a source takes
declarations from all others.  And findings of a source that no document tracks may be
shown in a document, or keep everything from being shown, until that source is evicted.

## Main definitions

* `Workspace.markClosed` — the workspace right before the eviction.
* `Workspace.LooksSame` — a document looks the same in two workspaces.
* `Workspace.compiles`, `Workspace.keepsApart` — what may get in the way.

## Main statements

* `Workspace.looksSame_closeDocument` — an open document looks the same after a close.
-/

namespace LanguageServer.Workspace

open Toy

variable {env : Environment} {budget : Nat} {ws ws' : Workspace} {uri : String} {k k' : Knowledge}

/-! ## What is looked at -/

/-- The diagnostics that a compilation of the documents yields for one of them. -/
def compiledDiagnostics (env : Environment) (uri : String) : Action Workspace (List Diagnostic) := do
  let program ← compile env
  return diagnosticsOf (← diagnosticsByUri env program) uri

/-- Whether a compilation of the documents has a source with a name. -/
def compiles (env : Environment) (ws : Workspace) (name : String) : Bool :=
  match ws.learn env with
  | .ok k => k.program.units.contains name
  | .error _ => false

/-- Whether all that a compilation of the documents finds in other sources than that of one document
is shown in other documents, or nowhere. -/
def keepsApart (env : Environment) (ws : Workspace) (uri : String) : Bool :=
  match ws.learn env, sourceNameFor uri with
  | .ok k, .ok n => k.keepsApart env.reporter n uri
  | _, _ => true

/-- A document looks the same in two workspaces: its symbols have the same definitions and the same
occurrences in it, and it has the same diagnostics unless something else is shown in it. -/
structure LooksSame (env : Environment) (uri : String) (ws ws' : Workspace) : Prop where
  definition : ∀ p, ((query env Navigation.definition uri p).run ws').result =
    ((query env Navigation.definition uri p).run ws).result
  highlights : ∀ p, ((query env Navigation.highlights uri p).run ws').result =
    ((query env Navigation.highlights uri p).run ws).result
  diagnostics : ws.keepsApart env uri = true →
    ((compiledDiagnostics env uri).run ws').result = ((compiledDiagnostics env uri).run ws).result

theorem LooksSame.refl (ws : Workspace) : LooksSame env uri ws ws :=
  ⟨fun _ => rfl, fun _ => rfl, fun _ => rfl⟩

theorem result_compiledDiagnostics (env : Environment) (uri : String) (ws : Workspace) :
    ((compiledDiagnostics env uri).run ws).result =
      (ws.learn env).bind fun k => k.diagnostics env.reporter uri := by
  obtain ⟨hresult, hknows⟩ : ((compile env).run ws).result = (ws.learn env).map (·.program) ∧
      ∀ k, ws.learn env = .ok k → ((compile env).run ws).state.Knows k := knows_compile
  unfold compiledDiagnostics
  cases hlearn : ws.learn env with
  | error e =>
    cases hrun : (compile env).run ws with
    | mk said result ws' =>
      rw [hrun, hlearn] at hresult
      obtain rfl : result = .error e := hresult
      rw [Action.run_bind_error hrun]
      rfl
  | ok k =>
    have hk := hknows k hlearn
    cases hrun : (compile env).run ws with
    | mk said result ws' =>
      rw [hrun, hlearn] at hresult
      rw [hrun] at hk
      obtain rfl : result = .ok k.program := hresult
      have hfailures : ws'.importFailures k.program =
          (Workspace.empty.absorb k).importFailures k.program := by
        unfold importFailures
        rw [hk.readFailures]
        rfl
      rw [Action.run_bind_ok hrun, Action.run_bind_pure]
      unfold diagnosticsByUri
      rw [Action.run_bind_ok (Action.run_state ws')]
      obtain ⟨-, hsorted, -⟩ := run_sortFindings env.reporter .empty
        (k.program.findings ++ ws'.importFailures k.program) ws'
      rw [hfailures] at hsorted
      simp only [hfailures, hsorted, hk.view]
      rfl

/-- A document looks the same if compilations mirror each other on its source. -/
theorem looksSame_of_mirrors {r : Renaming} {n : String} (hcurrent : ws.IsCurrent env none)
    (hcurrent' : ws'.IsCurrent env none) (htracked : ws.store.contains uri = true)
    (htracked' : ws'.store.contains uri = true) (hlearn : ws.learn env = .ok k)
    (hlearn' : ws'.learn env = .ok k') (hname : sourceNameFor uri = .ok n) (h : k.Mirrors r k')
    (hn : r.Near n)
    (hapart : k.keepsApart env.reporter n uri = true → k'.keepsApart env.reporter n uri = true) :
    LooksSame env uri ws ws' where
  definition p := by
    rw [result_query reads_definition hcurrent' (by simp), result_query reads_definition hcurrent
      (by simp)]
    simp only [reply, htracked, htracked', hlearn, hlearn', hname]
    exact h.definition hn p
  highlights p := by
    rw [result_query reads_highlights hcurrent' (by simp), result_query reads_highlights hcurrent
      (by simp)]
    simp only [reply, htracked, htracked', hlearn, hlearn', hname]
    exact congrArg Except.ok (h.highlights hn p)
  diagnostics hkept := by
    simp only [keepsApart, hlearn, hname] at hkept
    rw [result_compiledDiagnostics, result_compiledDiagnostics, hlearn, hlearn']
    exact h.diagnostics hn hkept (hapart hkept)

/-! ## Closing a document -/

/-- The workspace after a document was marked closed and before anything is evicted. -/
def markClosed (ws : Workspace) (uri : String) : Workspace :=
  match ws.store.close uri with
  | .ok store => ({ ws with store } : Workspace).notePublished uri []
  | .error _ => ws

/-- What is known to be shown does not matter to a settled workspace. -/
theorem IsSettled.published (henv : env.IsUniform) (h : ws.IsSettled env) (published : List String) :
    ({ ws with published } : Workspace).IsSettled env :=
  h.congr henv ⟨rfl, rfl, rfl⟩ rfl rfl fun _ hk => ⟨hk.program, hk.view, hk.readFailures⟩

/-- A workspace is settled before an eviction if it was before the document was closed. -/
theorem IsSettled.markClosed (henv : env.IsUniform) (h : ws.IsSettled env) (uri : String) :
    (ws.markClosed uri).IsSettled env := by
  unfold Workspace.markClosed
  cases hclose : ws.store.close uri with
  | error e => exact h
  | ok store => exact (h.close hclose).published henv _

/-- Closing a document ends with a collection after the document was marked closed. -/
theorem closeDocument_eq_ok {target : String}
    (h : ((closeDocument target).run ws).result = .ok ()) :
    (∃ evicted, (collectGarbage.run (ws.markClosed target)).result = .ok evicted) ∧
      ((closeDocument target).run ws).state = (collectGarbage.run (ws.markClosed target)).state := by
  cases htracked : ws.store.contains target with
  | false =>
    rw [run_closeDocument_of_unknown htracked] at h
    cases h
  | true =>
    obtain ⟨store, hclose, hrun⟩ := run_closeDocument htracked
    have hmarked : ws.markClosed target = ({ ws with store } : Workspace).notePublished target [] := by
      simp only [Workspace.markClosed, hclose]
    have hclear : (clear target).run { ws with store } =
        ⟨[(.publish target (versionOf { ws with store } target) [], { ws with store })], .ok (),
          ws.markClosed target⟩ := by
      rw [hmarked]
      rfl
    rw [hrun, Action.run_bind_ok hclear] at h ⊢
    obtain ⟨evicted, hcollected, -, -, hstate⟩ := Action.run_bind_eq_ok h
    exact ⟨⟨evicted, hcollected⟩, hstate⟩

/-- A collection opens and closes nothing. -/
theorem openUris_collectGarbage (ws : Workspace) :
    (collectGarbage.run ws).state.store.openUris = ws.store.openUris := by
  cases hs : ws.snapshot with
  | none => rw [run_collectGarbage_of_unread hs]
  | some s =>
    cases hopened : ws.store.openUris.mapM sourceNameFor with
    | error e => rw [run_collectGarbage_of_unnamed hs hopened]
    | ok opened =>
      rw [run_collectGarbage hs hopened]
      cases unreachable ws.store ((importGraph s.program).reach [] opened) ws.store.toList with
      | error e => rfl
      | ok garbage =>
        obtain ⟨said, published, hrun, -⟩ := run_announceEvicted (ws.store.evict garbage).2
          { ws with store := (ws.store.evict garbage).1 }
        simp only [hrun]
        exact DocumentStore.openUris_evict _ _

/-- A document that stays open looks the same before and after an eviction.  If a source without a
name was compiled before, then it must be compiled after. -/
theorem looksSame_collectGarbage (henv : env.IsToy budget) (h : ws.IsSettled env)
    {evicted : List String} (hok : (collectGarbage.run ws).result = .ok evicted)
    (hopen : uri ∈ ws.store.openUris)
    (hnameless : ws.compiles env "" = true → (collectGarbage.run ws).state.compiles env "" = true) :
    LooksSame env uri ws (collectGarbage.run ws).state := by
  cases hs : ws.snapshot with
  | none =>
    rw [run_collectGarbage_of_unread hs]
    exact .refl ws
  | some s =>
    cases hopened : ws.store.openUris.mapM sourceNameFor with
    | error e =>
      rw [run_collectGarbage_of_unnamed hs hopened] at hok
      cases hok
    | ok opened =>
      obtain ⟨n, -, hname⟩ := exists_name_of_mapM hopened uri hopen
      rw [run_collectGarbage hs hopened] at hok hnameless ⊢
      cases hgarbage : unreachable ws.store ((importGraph s.program).reach [] opened)
        ws.store.toList with
      | error e =>
        rw [hgarbage] at hok
        cases hok
      | ok garbage =>
        obtain ⟨said, published, hrun, -⟩ := run_announceEvicted (ws.store.evict garbage).2
          { ws with store := (ws.store.evict garbage).1 }
        simp only [hgarbage, hrun] at hnameless ⊢
        obtain ⟨k, k', hlearn, hlearn', hmirrors⟩ :=
          h.exists_mirrors_collect henv hs hopened hgarbage hopen hname rfl
        have hsettled := (h.collect henv hs hopened hgarbage).published henv.isUniform published
        have hlearn' : Workspace.learn env
            { ws with store := (ws.store.evict garbage).1, published } = .ok k' :=
          Eq.trans (learn_congr henv.isUniform ⟨rfl, rfl, rfl⟩) hlearn'
        simp only [compiles, hlearn, hlearn'] at hnameless
        obtain ⟨r, hmirrors, hn, hwithin⟩ := hmirrors hnameless
        refine looksSame_of_mirrors h.current hsettled.current (h.formed.tracked uri hopen)
          (hsettled.formed.tracked uri ?_) hlearn hlearn' hname hmirrors hn
          (hmirrors.keepsApart hwithin)
        simpa using hopen

/-- A document that is open after another was closed looks the same as it did before the eviction. -/
theorem looksSame_closeDocument (henv : env.IsToy budget) (h : ws.IsSettled env) {target : String}
    (hok : ((closeDocument target).run ws).result = .ok ())
    (hopen : uri ∈ ((closeDocument target).run ws).state.store.openUris)
    (hnameless : (ws.markClosed target).compiles env "" = true →
      ((closeDocument target).run ws).state.compiles env "" = true) :
    LooksSame env uri (ws.markClosed target) ((closeDocument target).run ws).state := by
  obtain ⟨⟨evicted, hcollected⟩, hstate⟩ := closeDocument_eq_ok hok
  rw [hstate] at hopen hnameless ⊢
  exact looksSame_collectGarbage henv (h.markClosed henv.isUniform target) hcollected
    (openUris_collectGarbage _ ▸ hopen) hnameless

end LanguageServer.Workspace
