import LanguageServer.Proofs.Workspace.Settling

/-!
# Capabilities in like workspaces

Two settled workspaces are alike if they differ only in what the latest compilation left:
one of them may have been compiled more recently, by a query.  Whatever the client asks
for then has the same effect in both, and leaves them alike.  Only if a path or the
engine stops it, what is known of the documents may differ; the next compilation that is
not stopped makes up for that.

## Main definitions

* `Workspace.Alike` — two settled workspaces differ only in what the latest compilation left.
* `Workspace.Parallel` — an action has the same effect in two workspaces, also if it fails.
* `Workspace.Kept` — the same documents, which may have to be compiled.
* `Workspace.Standing` — the same documents, and alike unless compiling was stopped.
* `Workspace.Stoppable` — the same effect, unless a path or the engine stops it.
* `Workspace.Renews` — the same effect, also if compiling was stopped before.
* `Workspace.Prepares` — the same in two workspaces without documents, whatever happens.

## Main statements

* `renews_openDocument`, `renews_changeDocument`, `renews_changeSettings`,
  `parallel_closeDocument`, `parallel_query`, `prepares_prepare` — what clients ask for.
-/

namespace LanguageServer

namespace Workspace

open Toy

/-- Two settled workspaces that differ only in what the latest compilation left. -/
abbrev Alike (env : Environment) : Workspace → Workspace → Prop := Resembles (IsSettled env)

/-- The action has the same effect in two workspaces, which are alike then, also if it fails. -/
abbrev Parallel {α : Type} (env : Environment) (R : Workspace → Workspace → Prop)
    (S : α → Workspace → Workspace → Prop) (a : Action Workspace α) : Prop :=
  a.Twins (Alike env) (fun _ => Alike env) R S

/-- Two workspaces with the same documents, which may have to be compiled. -/
abbrev Kept : Workspace → Workspace → Prop := Resembles IsKept

/-- Two workspaces with the same documents, which are alike unless compiling them was stopped. -/
structure Standing (env : Environment) (stopped : Bool) (ws ws' : Workspace) : Prop where
  kept : Kept ws ws'
  alike : stopped = false → Alike env ws ws'

/-- The action has the same effect in two workspaces, which are alike then, unless a path or the
engine stops it. -/
abbrev Stoppable {α : Type} (env : Environment) (R : Workspace → Workspace → Prop)
    (S : α → Workspace → Workspace → Prop) (a : Action Workspace α) : Prop :=
  a.Twins (Alike env) (fun f => Standing env f.stopsCompiling) R S

/-- The action has the same effect in two workspaces, also if compiling was stopped before; they are
alike then, unless it is stopped again or nothing is compiled. -/
abbrev Renews {α : Type} (env : Environment) (stopped : Bool) (a : Action Workspace α) : Prop :=
  a.Twins (Alike env) (fun f => Standing env (stopped || f.stopsCompiling)) (Standing env stopped)
    fun _ => Alike env

theorem Resembles.standing {env : Environment} {ws ws' : Workspace} (h : Alike env ws ws')
    (stopped : Bool) : Standing env stopped ws ws' := ⟨h.imp fun _ => IsSettled.isKept, fun _ => h⟩

theorem Standing.mono {env : Environment} {stopped stopped' : Bool} {ws ws' : Workspace}
    (h : Standing env stopped ws ws') (hstopped : stopped' = false → stopped = false) :
    Standing env stopped' ws ws' := ⟨h.kept, fun heq => h.alike (hstopped heq)⟩

/-- What is left of two workspaces if nothing more is at fault than was before. -/
theorem Standing.orElse {env : Environment} {stopped : Bool} {ws ws' : Workspace}
    (h : Standing env stopped ws ws') (stopped' : Bool) : Standing env (stopped || stopped') ws ws' :=
  h.mono fun heq => (Bool.or_eq_false_iff.1 heq).1

theorem Parallel.stoppable {α : Type} {env : Environment} {R : Workspace → Workspace → Prop}
    {S : α → Workspace → Workspace → Prop} {a : Action Workspace α} (h : Parallel env R S a) :
    Stoppable env R S a :=
  h.imp (fun _ _ h => h) (fun _ _ _ halike => halike.standing _) fun _ _ _ h => h

/-- What a stoppable action leaves if compiling may have been stopped before. -/
theorem Stoppable.since {α : Type} {env : Environment} {R : Workspace → Workspace → Prop}
    {S : α → Workspace → Workspace → Prop} {a : Action Workspace α} (h : Stoppable env R S a)
    (stopped : Bool) :
    a.Twins (Alike env) (fun f => Standing env (stopped || f.stopsCompiling)) R S :=
  h.imp (fun _ _ h => h)
    (fun _ _ _ hf => hf.mono fun heq => (Bool.or_eq_false_iff.1 heq).2) fun _ _ _ h => h

/-- Two workspaces are alike and know the same. -/
structure Knowing (env : Environment) (ws ws' : Workspace) : Prop where
  alike : Alike env ws ws'
  view : ws'.view = ws.view
  readFailures : ws'.readFailures = ws.readFailures

variable {env : Environment} {budget : Nat} {ws ws' : Workspace}

/-! ## Compiling and publishing -/

theorem versionRemarks_congr (henv : env.IsUniform) {J : Workspace → Prop}
    (h : Resembles J ws ws') :
    ws'.versionRemarks (env.engines ws'.compilations) ws'.configuration.targetVersion =
      ws.versionRemarks (env.engines ws.compilations) ws.configuration.targetVersion := by
  simp only [versionRemarks, henv ws'.compilations ws.compilations, h.task.configuration,
    h.refusedVersion]

theorem refusedVersion_noteVersion_congr (henv : env.IsUniform) {J : Workspace → Prop}
    (h : Resembles J ws ws') :
    (ws'.noteVersion (env.engines ws'.compilations) ws'.configuration.targetVersion).refusedVersion =
      (ws.noteVersion (env.engines ws.compilations) ws.configuration.targetVersion).refusedVersion := by
  simp only [noteVersion, henv ws'.compilations ws.compilations, h.task.configuration]
  split
  · exact h.refusedVersion
  · rfl

/-- A compilation that finds something leaves two workspaces with the same documents knowing the
same. -/
theorem knowing_compile_of_learn (henv : env.IsToy budget) (h : Resembles IsPending ws ws')
    {k : Knowledge} (hlearn : ws.learn env = .ok k) :
    Knowing env ((compile env).run ws).state ((compile env).run ws').state := by
  have hlearn' := (learn_congr henv.isUniform h.task).trans hlearn
  have hsettled := isSettled_absorb henv h.left.formed h.left.size hlearn
  have hsettled' := isSettled_absorb henv h.right.formed h.right.size hlearn'
  have htask := (sameTask_noteVersion ws (env.engines ws.compilations)
    ws.configuration.targetVersion).trans (sameTask_absorb _ k)
  have htask' := (sameTask_noteVersion ws' (env.engines ws'.compilations)
    ws'.configuration.targetVersion).trans (sameTask_absorb _ k)
  rw [(run_compile_of_learn hlearn).2, (run_compile_of_learn hlearn').2]
  refine ⟨⟨?_, ?_, ?_, by simp [absorb], hsettled _, hsettled' _⟩, rfl, rfl⟩
  · exact htask.symm.trans (h.task.trans htask')
  · simp only [noteVersion, absorb]
    split <;> split <;> exact h.published
  · exact refusedVersion_noteVersion_congr henv.isUniform h

/-- A compilation that finds nothing leaves two workspaces with the documents that they have. -/
theorem kept_compile_of_learn_error (henv : env.IsUniform) (h : Resembles IsPending ws ws')
    {uris sources : Table String String} {f : Fault}
    (hnames : nameDocuments .empty .empty ws.store.toList = (uris, .ok sources))
    (hlearn : ws.learn env = .error f) :
    Kept ((compile env).run ws).state ((compile env).run ws').state := by
  have hlearn' := (learn_congr henv h.task).trans hlearn
  have hnames' : nameDocuments .empty .empty ws'.store.toList = (uris, .ok sources) := by
    rw [h.task.store, hnames]
  have hkeeps (v : Workspace) : Keeps v ((compile env).run v).state := (discreet_compile env v).2
  refine ⟨?_, ?_, ?_, ?_, isKept_compile_of_learn_error h.left.toIsKept hlearn,
    isKept_compile_of_learn_error h.right.toIsKept hlearn'⟩
  · exact (hkeeps ws).sameTask.symm.trans (h.task.trans (hkeeps ws').sameTask)
  · rw [(hkeeps ws').published, (hkeeps ws).published, h.published]
  · rw [refusedVersion_compile env hnames, refusedVersion_compile env hnames',
      refusedVersion_noteVersion_congr henv h]
  · rw [(run_compile_of_learn_error hlearn).2, (run_compile_of_learn_error hlearn').2]
    exact h.compiled

/-- Compiling in two workspaces with the same documents has the same effect, whatever was known
before. -/
theorem stoppable_compile (henv : env.IsToy budget) :
    Stoppable env (Resembles IsPending) (fun _ => Knowing env) (compile env) := by
  intro ws ws' h
  cases hnames : nameDocuments .empty .empty ws.store.toList with
  | mk uris named =>
    have hnames' : nameDocuments .empty .empty ws'.store.toList = (uris, named) := by
      rw [h.task.store, hnames]
    cases named with
    | error e =>
      have hleft := isSettled_compile henv h.left
      have hright := isSettled_compile henv h.right
      rw [run_compile_of_unnamed env hnames] at hleft ⊢
      rw [run_compile_of_unnamed env hnames'] at hright ⊢
      refine ⟨.nil, rfl, fun _ => nofun, fun f hf => Resembles.standing ?_ _⟩
      exact ⟨⟨h.task.store, h.task.configuration, h.task.base⟩, h.published, h.refusedVersion,
        h.compiled, hleft.resolve_right (by rintro ⟨f, ⟨⟩, hf⟩; cases hf),
        hright.resolve_right (by rintro ⟨f, ⟨⟩, hf⟩; cases hf)⟩
    | ok sources =>
      have hsaid : ((compile env).run ws').audible.map (·.1) =
          ((compile env).run ws).audible.map (·.1) := by
        rw [audible_compile env hnames, audible_compile env hnames',
          versionRemarks_congr henv.isUniform h]
      have hechoes := forall₂_echoes (I := Alike env) hsaid fun e he =>
        ((discreet_compile env ws).1 e (List.mem_filter.1 he).1).1
      cases hlearn : ws.learn env with
      | error f =>
        have hresult := (run_compile_of_learn_error hlearn).1
        have hresult' := (run_compile_of_learn_error
          ((learn_congr henv.isUniform h.task).trans hlearn)).1
        refine ⟨hechoes, hresult'.trans hresult.symm, fun x hx => ?_, fun f' hf' =>
          ⟨kept_compile_of_learn_error henv.isUniform h hnames hlearn, fun hstops => ?_⟩⟩
        · rw [hresult] at hx
          cases hx
        · -- Only a path or the engine stops a compilation of documents that have names.
          obtain rfl := Except.error.inj (hresult.symm.trans hf')
          rcases learn_eq_error hlearn with hstops' | ⟨e, rfl, hunnamed⟩
          · rw [hstops'] at hstops
            cases hstops
          · rw [hnames] at hunnamed
            cases hunnamed
      | ok k =>
        have hresult := (run_compile_of_learn hlearn).1
        have hresult' := (run_compile_of_learn
          ((learn_congr henv.isUniform h.task).trans hlearn)).1
        refine ⟨hechoes, hresult'.trans hresult.symm,
          fun x _ => knowing_compile_of_learn henv h hlearn, fun f hf => ?_⟩
        rw [hresult] at hf
        cases hf

/-- Sorting findings in workspaces that know the same. -/
theorem parallel_diagnosticsByUri (henv : env.IsUniform) (program : Program) :
    Parallel env (Knowing env) (fun _ => Alike env) (diagnosticsByUri env program) := by
  intro ws ws' h
  unfold diagnosticsByUri
  rw [Action.run_bind_ok (Action.run_state ws), Action.run_bind_ok (Action.run_state ws')]
  have hfailures : ws'.importFailures program = ws.importFailures program := by
    simp only [importFailures, h.readFailures]
  rw [hfailures]
  simp only [List.nil_append]
  obtain ⟨hsaid, hresult, hrecall⟩ := run_sortFindings env.reporter .empty
    (program.findings ++ ws.importFailures program) ws
  obtain ⟨hsaid', hresult', hrecall'⟩ := run_sortFindings env.reporter .empty
    (program.findings ++ ws.importFailures program) ws'
  rw [h.view] at hsaid' hresult'
  have halike := (h.alike.left.resembles_recalls henv hrecall).symm.trans
    (h.alike.trans (h.alike.right.resembles_recalls henv hrecall'))
  refine ⟨?_, hresult'.trans hresult.symm, fun _ _ => halike, fun _ _ => halike⟩
  refine forall₂_echoes ?_ fun e he => ?_
  · rw [Run.map_audible, Run.map_audible]
    exact congrArg (List.filter (!·.isCall)) (hsaid'.trans hsaid.symm)
  · exact ((discreet_sortFindings env.reporter .empty _ ws).1 e (List.mem_filter.1 he).1).1

/-- Settled workspaces stay alike if the record of what is shown changes in the same way. -/
theorem Resembles.notePublished (henv : env.IsUniform) (h : Alike env ws ws') (uri : String)
    (diagnostics : List Diagnostic) :
    Alike env (ws.notePublished uri diagnostics) (ws'.notePublished uri diagnostics) := by
  have hsettled {ws : Workspace} (h : ws.IsSettled env) :
      (ws.notePublished uri diagnostics).IsSettled env :=
    h.congr henv ⟨rfl, rfl, rfl⟩ rfl rfl fun _ hk => ⟨hk.program, hk.view, hk.readFailures⟩
  refine ⟨⟨h.task.store, h.task.configuration, h.task.base⟩, ?_, h.refusedVersion, h.compiled,
    hsettled h.left, hsettled h.right⟩
  simp only [Workspace.notePublished, h.published]

theorem parallel_publish (henv : env.IsUniform) (uri : String) (version : Option Int)
    (diagnostics : List Diagnostic) :
    Parallel env (Alike env) (fun _ => Alike env) (publish uri version diagnostics) :=
  .bind (.say fun _ _ _ h => h) fun _ => .update fun _ _ h => h.notePublished henv uri diagnostics

theorem versionOf_congr {J : Workspace → Prop} (h : Resembles J ws ws') (uri : String) :
    ws'.versionOf uri = ws.versionOf uri := by
  simp only [versionOf, h.task.store]

theorem parallel_publishFrom (henv : env.IsUniform) (t : DiagnosticTable) (uri : String) :
    Parallel env (Alike env) (fun _ => Alike env) (publishFrom t uri) :=
  .state_bind fun ws ws' h => by
    rw [versionOf_congr h]
    exact parallel_publish henv _ _ _ ws ws' h

/-- Publishing what was found in workspaces that know the same. -/
theorem parallel_publishAll (henv : env.IsUniform) (program : Program) :
    Parallel env (Knowing env) (fun _ => Alike env) (do
      let t ← diagnosticsByUri env program
      Action.forAll (publishFrom t) ((← Action.state).targets t)) := by
  refine .bind (parallel_diagnosticsByUri henv program) fun t => .state_bind fun ws ws' h => ?_
  have htargets : ws'.targets t = ws.targets t := by
    simp only [targets, h.task.store, h.published]
  rw [htargets]
  exact Action.Twins.forAll (parallel_publishFrom henv t) _ ws ws' h

theorem stoppable_validateAll (henv : env.IsToy budget) :
    Stoppable env (Resembles IsPending) (fun _ => Alike env) (validateAll env) :=
  .bind (stoppable_compile henv) fun program =>
    (parallel_publishAll henv.isUniform program).stoppable

/-- Two workspaces have the same documents, which may have to be compiled, and one of them is
tracked. -/
structure Awaiting (uri : String) (ws ws' : Workspace) : Prop where
  pending : Resembles IsPending ws ws'
  tracked : ws.store.contains uri = true

theorem stoppable_validate (henv : env.IsToy budget) (uri : String) :
    Stoppable env (Awaiting uri) (fun _ => Alike env) (validate env uri) := by
  refine .state_bind fun ws ws' h => ?_
  obtain ⟨d, hd⟩ := Option.isSome_iff_exists.1 h.tracked
  have hget : ws.store.get uri = .ok d := DocumentStore.get_eq_ok_iff.2 hd
  have hget' : ws'.store.get uri = .ok d := by rw [h.pending.task.store, hget]
  rw [hget, hget']
  have hpublish (program : Program) : Parallel env (Knowing env) (fun _ => Alike env) (do
      let t ← diagnosticsByUri env program
      publish uri d.version (diagnosticsOf t uri)) :=
    .bind (parallel_diagnosticsByUri henv.isUniform program) fun _ =>
      parallel_publish henv.isUniform _ _ _
  have hvalidate : Stoppable env (Resembles IsPending) (fun _ => Alike env) (do
      let program ← compile env
      let t ← diagnosticsByUri env program
      publish uri d.version (diagnosticsOf t uri)) :=
    .bind (stoppable_compile henv) fun program => (hpublish program).stoppable
  exact hvalidate ws ws' h.pending

/-! ## Evictions -/

/-- Two workspaces that are alike find the same documents unreachable. -/
theorem unreachable_congr_of_alike (h : Alike env ws ws') {s s' : Snapshot} (hs : ws.snapshot = some s)
    (hs' : ws'.snapshot = some s') {opened : List String}
    (hopened : ws.store.openUris.mapM sourceNameFor = .ok opened) :
    unreachable ws.store ((importGraph s'.program).reach [] opened) ws.store.toList =
      unreachable ws.store ((importGraph s.program).reach [] opened) ws.store.toList := by
  cases hgarbage : unreachable ws.store ((importGraph s.program).reach [] opened)
      ws.store.toList with
  | error e => exact unreachable_eq_error hgarbage
  | ok garbage =>
    obtain ⟨uris, sources, hnames⟩ := exists_nameDocuments_of_unreachable hopened hgarbage
    have hnames' : nameDocuments .empty .empty ws'.store.toList = (uris, .ok sources) := by
      rw [h.task.store, hnames]
    have hopened' : ws'.store.openUris.mapM sourceNameFor = .ok opened := by
      rw [h.task.store, hopened]
    rw [← hgarbage]
    refine unreachable_congr fun d _ n _ => Bool.eq_iff_iff.2 ?_
    rw [contains_reach_iff_isNeeded (h.left.remembers uris sources hnames) hs hopened,
      contains_reach_iff_isNeeded (h.right.remembers uris sources hnames') hs' hopened',
      isNeeded_congr h.task]

theorem run_collectGarbage_of_unread (h : ws.snapshot = none) :
    collectGarbage.run ws = ⟨[], .ok [], ws⟩ := by
  unfold collectGarbage
  rw [Action.run_bind_ok (Action.run_state ws)]
  simp only [h]
  rfl

theorem run_collectGarbage_of_unnamed {s : Snapshot} (hs : ws.snapshot = some s) {e : Uri.UriError}
    (hopened : ws.store.openUris.mapM sourceNameFor = .error e) :
    collectGarbage.run ws = ⟨[], .error (.uri e), ws⟩ := by
  unfold collectGarbage namesOf
  rw [Action.run_bind_ok (Action.run_state ws)]
  simp only [hs, hopened]
  rfl

/-- Publishes that documents which were forgotten have no diagnostics. -/
def announceEvicted (evicted : List String) : Action Workspace (List String) := do
  Action.forAll (publish · none []) evicted
  return evicted

/-- Announcing that documents were forgotten changes only what the client is known to be shown. -/
theorem run_announceEvicted (evicted : List String) (ws : Workspace) :
    ∃ said published, (announceEvicted evicted).run ws = ⟨said, .ok evicted, { ws with published }⟩ ∧
      said.map (·.1) = evicted.map (.publish · none []) := by
  have hall : ∀ (l : List String) (ws : Workspace), ∃ said published,
      (Action.forAll (publish · none []) l).run ws = ⟨said, .ok (), { ws with published }⟩ ∧
        said.map (·.1) = l.map (.publish · none []) := by
    intro l
    induction l with
    | nil => exact fun ws => ⟨[], ws.published, rfl, rfl⟩
    | cons uri rest ih =>
      intro ws
      obtain ⟨said, published, hrun, hsaid⟩ := ih (ws.notePublished uri [])
      refine ⟨(.publish uri none [], ws) :: said, published, ?_, by simp [hsaid]⟩
      have hpublish : (publish uri none []).run ws =
          ⟨[(.publish uri none [], ws)], .ok (), ws.notePublished uri []⟩ := rfl
      show ((publish uri none []) >>= fun _ => Action.forAll (publish · none []) rest).run ws = _
      rw [Action.run_bind_ok hpublish, hrun]
      rfl
  obtain ⟨said, published, hrun, hsaid⟩ := hall evicted ws
  unfold announceEvicted
  rw [Action.run_bind_ok hrun]
  exact ⟨_, published, rfl, by simpa using hsaid⟩

/-- A collection finds the documents that are not reached, forgets them, and announces it. -/
theorem run_collectGarbage {s : Snapshot} (hs : ws.snapshot = some s) {opened : List String}
    (hopened : ws.store.openUris.mapM sourceNameFor = .ok opened) :
    collectGarbage.run ws =
      match unreachable ws.store ((importGraph s.program).reach [] opened) ws.store.toList with
      | .error e => ⟨[], .error (.uri e), ws⟩
      | .ok garbage =>
        (announceEvicted (ws.store.evict garbage).2).run
          { ws with store := (ws.store.evict garbage).1 } := by
  cases ws
  obtain rfl : _ = some s := hs
  have htaken (t : Workspace) :
      (Action.ofExcept Fault.uri (.ok opened)).run t = ⟨[], .ok opened, t⟩ := rfl
  unfold collectGarbage namesOf
  rw [Action.run_bind_ok (Action.run_state _)]
  simp only at hopened ⊢
  rw [hopened, Action.run_bind_ok (htaken _)]
  cases unreachable _ _ _ <;> rfl

theorem run_closeDocument_of_unknown {uri : String} (h : ws.store.contains uri = false) :
    (closeDocument uri).run ws =
      ⟨[], .error (.refused (.of .invalidParams (StoreError.unknown uri).message)), ws⟩ := by
  have hrequire := run_require uri ws
  rw [if_neg (by simp [h])] at hrequire
  unfold closeDocument
  rw [Action.run_bind_error hrequire]

/-- Closing a tracked document clears it and collects once it is marked closed. -/
theorem run_closeDocument {uri : String} (h : ws.store.contains uri = true) :
    ∃ store, ws.store.close uri = .ok store ∧ (closeDocument uri).run ws =
      (do clear uri; let _ ← collectGarbage : Action Workspace Unit).run { ws with store } := by
  obtain ⟨d, hd⟩ := Option.isSome_iff_exists.1 h
  have hclose : ∃ store, ws.store.close uri = .ok store := by
    unfold DocumentStore.close
    rw [DocumentStore.get_eq_ok_iff.2 hd]
    exact ⟨_, rfl⟩
  obtain ⟨store, hclose⟩ := hclose
  refine ⟨store, hclose, ?_⟩
  have hrequire := run_require uri ws
  rw [if_pos h] at hrequire
  have htaken : (Action.ofExcept Fault.store (.ok store)).run ws = ⟨[], .ok store, ws⟩ := rfl
  unfold closeDocument
  rw [Action.run_bind_silent hrequire, Action.run_bind_silent (Action.run_state ws), hclose,
    Action.run_bind_silent htaken, Action.run_bind_silent (Action.run_update _ _)]

theorem parallel_announceEvicted (henv : env.IsUniform) (evicted : List String) :
    Parallel env (Alike env) (fun _ => Alike env) (announceEvicted evicted) :=
  .bind (.forAll (fun _ => parallel_publish henv _ _ _) _) fun _ => .pure _ fun _ _ h => h

theorem parallel_collectGarbage (henv : env.IsToy budget) :
    Parallel env (Alike env) (fun _ => Alike env) collectGarbage := by
  intro ws ws' h
  cases hs : ws.snapshot with
  | none =>
    rw [run_collectGarbage_of_unread hs, run_collectGarbage_of_unread (h.compiled.2 hs)]
    exact ⟨.nil, rfl, fun _ _ => h, fun _ => nofun⟩
  | some s =>
    obtain ⟨s', hs'⟩ : ∃ s', ws'.snapshot = some s' :=
      Option.ne_none_iff_exists'.1 fun hnone => by simp [h.compiled.1 hnone] at hs
    cases hopened : ws.store.openUris.mapM sourceNameFor with
    | error e =>
      have hopened' : ws'.store.openUris.mapM sourceNameFor = .error e := by
        rw [h.task.store, hopened]
      rw [run_collectGarbage_of_unnamed hs hopened, run_collectGarbage_of_unnamed hs' hopened']
      exact ⟨.nil, rfl, fun _ => nofun, fun _ _ => h⟩
    | ok opened =>
      have hopened' : ws'.store.openUris.mapM sourceNameFor = .ok opened := by
        rw [h.task.store, hopened]
      have hsame := unreachable_congr_of_alike h hs hs' hopened
      have hcollect (garbage : List String) :
          unreachable ws'.store ((importGraph s'.program).reach [] opened) ws'.store.toList =
              .ok garbage →
            ({ ws' with store := (ws'.store.evict garbage).1 } : Workspace).IsSettled env :=
        h.right.collect henv hs' hopened'
      rw [run_collectGarbage hs hopened, run_collectGarbage hs' hopened']
      rw [h.task.store] at hcollect ⊢
      rw [hsame] at hcollect ⊢
      cases hgarbage : unreachable ws.store ((importGraph s.program).reach [] opened)
          ws.store.toList with
      | error e => exact ⟨.nil, rfl, fun _ => nofun, fun _ _ => h⟩
      | ok garbage =>
        refine parallel_announceEvicted henv.isUniform _ _ _ ?_
        exact ⟨⟨rfl, h.task.configuration, h.task.base⟩, h.published, h.refusedVersion, h.compiled,
          h.left.collect henv hs hopened hgarbage, hcollect garbage hgarbage⟩

/-! ## What clients ask for -/

theorem Resembles.pending_newer (h : Kept ws ws') {store : DocumentStore}
    (hformed : store.IsFormed) (hsize : store.size ≠ 0)
    (hnewer : ws.store.generation < store.generation) :
    Resembles IsPending { ws with store } { ws' with store } := by
  have hpending {ws : Workspace} (h : ws.IsKept) (hnewer : ws.store.generation < store.generation) :
      ({ ws with store } : Workspace).IsPending :=
    isPending_of_newer hformed hsize fun s hs => Nat.lt_of_le_of_lt (h.bounded s hs) hnewer
  exact ⟨⟨rfl, h.task.configuration, h.task.base⟩, h.published, h.refusedVersion, h.compiled,
    hpending h.left hnewer, hpending h.right (h.task.store ▸ hnewer)⟩

/-- A document is opened with the same effect, whatever was known before. -/
theorem renews_openDocument (henv : env.IsToy budget) (stopped : Bool) (d : Params.Opened) :
    Renews env stopped (openDocument env d) := by
  refine .bind (.update fun ws ws' h => ?_) fun _ => (stoppable_validate henv d.uri).since stopped
  have htracked := ws.store.contains_track d.uri d.language (some d.version) d.content
  have hpending := h.kept.pending_newer
    (h.kept.left.formed.track d.uri d.language (some d.version) d.content)
    (DocumentStore.size_ne_zero_of_contains htracked) (Nat.lt_succ_self ws.store.generation)
  rw [h.kept.task.store]
  exact ⟨hpending, htracked⟩

/-- Requiring a document changes nothing. -/
theorem twins_require {R : Workspace → Workspace → Prop} {E : Fault → Workspace → Workspace → Prop}
    (hstore : ∀ ws ws', R ws ws' → ws'.store = ws.store) (hE : ∀ f ws ws', R ws ws' → E f ws ws')
    (uri : String) : (require uri).Twins (Alike env) E R fun _ => R := by
  refine .state_bind fun ws ws' h => ?_
  rw [hstore ws ws' h]
  split
  · exact Action.Twins.pure () (fun _ _ h => h) ws ws' h
  · exact Action.Twins.stop (hE _) ws ws' h

/-- A document is changed with the same effect, whatever was known before. -/
theorem renews_changeDocument (henv : env.IsToy budget) (stopped : Bool) (uri : Json)
    (version : Option Int) (changes : List ContentChange) :
    Renews env stopped (changeDocument env uri version changes) := by
  have hrequire : (requireValue uri).Twins (Alike env)
      (fun f => Standing env (stopped || f.stopsCompiling)) (Standing env stopped)
      fun _ => Standing env stopped := by
    unfold requireValue
    split
    · exact .bind (twins_require (fun _ _ h => h.kept.task.store) (fun _ _ _ h => h.orElse _) _)
        fun _ => .pure _ fun _ _ h => h
    · exact .stop fun _ _ h => h.orElse _
    · exact .stop fun _ _ h => h.orElse _
    · exact .stop fun _ _ h => h.orElse _
  refine .bind hrequire fun uri => .state_bind fun ws ws' h => ?_
  rw [h.kept.task.store]
  cases hedits : ws.store.applyEdits uri version (changes.filterMap ContentChange.edit?) with
  | error e => exact Action.Twins.stop (fun _ _ h => h.orElse _) ws ws' h
  | ok store =>
    have hnewer : ws.store.generation < store.generation := by
      rw [DocumentStore.generation_applyEdits hedits]
      exact Nat.lt_succ_self _
    have hpending := h.kept.pending_newer (h.kept.left.formed.applyEdits hedits)
      (DocumentStore.size_ne_zero_of_contains (DocumentStore.contains_applyEdits hedits)) hnewer
    exact (stoppable_validateAll henv).since stopped _ _ hpending

theorem parallel_closeDocument (henv : env.IsToy budget) (uri : String) :
    Parallel env (Alike env) (fun _ => Alike env) (closeDocument uri) := by
  refine .bind (twins_require (fun _ _ h => h.task.store) (fun _ _ _ h => h) uri) fun _ =>
    .state_bind fun ws ws' h => ?_
  rw [h.task.store]
  cases hclose : ws.store.close uri with
  | error e => exact Action.Twins.stop (fun _ _ h => h) ws ws' h
  | ok store =>
    have hclosed : Alike env { ws with store } { ws' with store } :=
      ⟨⟨rfl, h.task.configuration, h.task.base⟩, h.published, h.refusedVersion, h.compiled,
        h.left.close hclose, h.right.close (h.task.store ▸ hclose)⟩
    have hrest : Parallel env (Alike env) (fun _ => Alike env)
        (do clear uri; let _ ← collectGarbage) :=
      .bind (.state_bind fun ws ws' h => by
        rw [versionOf_congr h]
        exact parallel_publish henv.isUniform _ _ _ ws ws' h) fun _ =>
        .bind (parallel_collectGarbage henv) fun _ => .pure _ fun _ _ h => h
    exact hrest _ _ hclosed

/-- Settings are taken up in the same way, also if that is stopped by a path. -/
theorem twins_applySettings (stopped : Bool) (settings : Json) :
    (applySettings env settings).Twins (Alike env)
      (fun f => Standing env (stopped || f.stopsCompiling)) (Standing env stopped)
      fun _ ws ws' => ∃ configuration v v', Kept v v' ∧ ws = { v with configuration } ∧
        ws' = { v' with configuration } := by
  rintro ws ws' ⟨h, -⟩
  have hupdate : ws'.configuration.update env.files ws'.base =
      ws.configuration.update env.files ws.base := by
    rw [h.task.configuration, h.task.base]
  rw [run_applySettings, run_applySettings, hupdate]
  cases ws.configuration.update env.files ws.base settings.toData with
  | mk configuration outcome =>
    cases outcome with
    | error e =>
      refine ⟨.nil, rfl, fun _ => nofun, fun f hf => ?_⟩
      obtain rfl := Except.error.inj hf
      refine ⟨?_, fun hstopped => by simp [Fault.stopsCompiling] at hstopped⟩
      exact ⟨⟨h.task.store, rfl, h.task.base⟩, h.published, h.refusedVersion, h.compiled,
        h.left.configure _, h.right.configure _⟩
    | ok refused =>
      refine ⟨?_, rfl, fun _ _ => ⟨configuration, ws, ws', h, rfl, rfl⟩, fun _ => nofun⟩
      refine forall₂_echoes ?_ fun e he => ?_
      · simp [Run.audible, List.filter_map, Function.comp_def]
      · obtain ⟨hmem, -⟩ := List.mem_filter.1 he
        obtain ⟨entry, -, rfl⟩ := List.mem_map.1 hmem
        trivial

/-- Settings are changed with the same effect, whatever was known before. -/
theorem renews_changeSettings (henv : env.IsToy budget) (stopped : Bool) (settings : Json) :
    Renews env stopped (changeSettings env settings) := by
  refine .bind (twins_applySettings stopped settings) fun _ => .state_bind ?_
  rintro _ _ ⟨configuration, ws, ws', h, rfl, rfl⟩
  have hsame : ws'.store.size = ws.store.size := by rw [h.task.store]
  have hresembles {J : Workspace → Prop} (hleft : J { ws with configuration })
      (hright : J { ws' with configuration }) :
      Resembles J { ws with configuration } { ws' with configuration } :=
    ⟨⟨h.task.store, rfl, h.task.base⟩, h.published, h.refusedVersion, h.compiled, hleft, hright⟩
  by_cases hsize : ws.store.size = 0
  · simp only [hsame, hsize, ne_eq, not_true_eq_false, if_false]
    refine Action.Twins.pure (R := Alike env) () (fun _ _ h => h) _ _ ?_
    exact hresembles ((h.left.configure configuration).isSettled hsize)
      ((h.right.configure configuration).isSettled (hsame.trans hsize))
  · simp only [hsame, hsize, ne_eq, not_false_eq_true, if_true]
    have hpending : Resembles IsPending { ws with configuration } { ws' with configuration } :=
      hresembles ⟨h.left.configure configuration, hsize⟩
        ⟨h.right.configure configuration, hsame ▸ hsize⟩
    exact (stoppable_validateAll henv).since stopped _ _ hpending

/-- A query is answered in the same way in like workspaces. -/
theorem parallel_query {α : Type} {answer : Program → String → Position → Action Workspace α}
    {f : View → Program → String → Position → Except Fault α}
    (hreads : ∀ program source p, Reads (answer program source p) fun v => f v program source p)
    (henv : env.IsToy budget) (uri : String) (p : Position) :
    Parallel env (Alike env) (fun _ => Alike env) (query env answer uri p) := by
  intro ws ws' h
  obtain ⟨hsilent, hlike⟩ := resembles_query hreads henv h.left uri p
  obtain ⟨hsilent', hlike'⟩ := resembles_query hreads henv h.right uri p
  have halike := hlike.symm.trans (h.trans hlike')
  refine ⟨?_, ?_, fun _ _ => halike, fun _ _ => halike⟩
  · rw [hsilent, hsilent']
    exact .nil
  · rw [result_query hreads h.left.current (by simp), result_query hreads h.right.current (by simp),
      reply_congr henv.isUniform h.task]

/-! ## Preparing -/

/-- Two workspaces without documents are alike. -/
structure Idle (env : Environment) (ws ws' : Workspace) : Prop where
  alike : Alike env ws ws'
  size : ws.store.size = 0

/-- Workspaces without documents stay alike under the same root and the same settings. -/
theorem Idle.configure (h : Idle env ws ws') {base base' : Option Path}
    {configuration configuration' : Configuration} (hbase : base' = base)
    (hconfiguration : configuration' = configuration) :
    Idle env { ws with base, configuration }
      { ws' with base := base', configuration := configuration' } := by
  have hsettled {ws : Workspace} (h : ws.IsSettled env) (hsize : ws.store.size = 0)
      (base : Option Path) (configuration : Configuration) :
      ({ ws with base, configuration } : Workspace).IsSettled env :=
    IsKept.isSettled ⟨h.isKept.formed, h.isKept.bounded, h.isKept.seen⟩ hsize
  refine ⟨⟨⟨h.alike.task.store, hconfiguration, hbase⟩, h.alike.published, h.alike.refusedVersion,
    h.alike.compiled, hsettled h.alike.left h.size _ _, hsettled h.alike.right ?_ _ _⟩, h.size⟩
  exact h.alike.task.store ▸ h.size

/-- The action has the same effect in two workspaces without documents and leaves them so, whether
it is stopped or not. -/
abbrev Prepares {α : Type} (env : Environment) (a : Action Workspace α) : Prop :=
  a.Twins (Idle env) (fun _ => Idle env) (Idle env) fun _ => Idle env

theorem prepares_base (base : Path) :
    Prepares env (Action.update fun ws => { ws with base := some base }) :=
  .update fun _ _ h => h.configure rfl h.alike.task.configuration

theorem prepares_configuration (configuration : Configuration) :
    Prepares env (Action.update fun ws => { ws with configuration }) :=
  .update fun _ _ h => h.configure h.alike.task.base rfl

theorem prepares_applySettings (settings : Json) : Prepares env (applySettings env settings) := by
  refine .state_bind fun ws ws' h => ?_
  rw [h.alike.task.configuration, h.alike.task.base]
  have hrest (r : Configuration × Except PathError (List ConfigurationError)) : Prepares env (do
      Action.update fun ws : Workspace => { ws with configuration := r.1 }
      let refused ← Action.ofExcept .path r.2
      Action.forAll
        (fun e => Action.say (.log .error ("Invalid configuration: " ++ e.message))) refused) :=
    .bind (prepares_configuration r.1) fun _ =>
      .bind (.ofExcept (fun _ _ _ _ h => h) fun _ _ _ _ h => h) fun refused =>
        .forAll (fun _ => .say fun _ _ _ h => h) refused
  exact hrest _ ws ws' h

theorem prepares_rootDirectory (uri : String) : Prepares env (rootDirectory env uri) := by
  rw [rootDirectory_eq]
  refine .bind (S := fun _ => Idle env) ?_ fun path => ?_
  · split
    · exact .ofExcept (fun _ _ _ _ h => h) fun _ _ _ _ h => h
    · exact .pure _ fun _ _ h => h
  · cases path with
    | none => exact .stop fun _ _ h => h
    | some path => exact .ofExcept (fun _ _ _ _ h => h) fun _ _ _ _ h => h

theorem prepares_openRoot (uri : String) : Prepares env (openRoot env uri) := by
  refine .bind (prepares_rootDirectory uri) fun base => .bind (prepares_base base) fun _ => ?_
  split
  · exact prepares_configuration _
  · exact .bind (.say fun _ _ _ h => h) fun _ => prepares_configuration _
  · exact .stop fun _ _ h => h
  · exact .stop fun _ _ h => h

theorem prepares_prepare (id : ServerId) (root : Json) (folders : List WorkspaceFolder)
    (options : Json) : Prepares env (prepare env id root folders options) := by
  have hrest : Prepares env (do applySettings env options; return id) :=
    .bind (prepares_applySettings options) fun _ => .pure id fun _ _ h => h
  unfold prepare
  split
  · exact hrest
  · exact .bind (prepares_openRoot _) fun _ => hrest
  · exact .bind (S := fun _ => Idle env) (.stop fun _ _ h => h) fun _ => hrest

end Workspace

end LanguageServer
