import LanguageServer.Proofs.Document.Store
import LanguageServer.Proofs.Workspace.Knowledge
import LanguageServer.Session.CompilerBacked

/-!
# Answers from the latest program

A query is answered from the latest program if the documents have not changed since.
That is right as long as the latest program is then the one that a compilation would
find anew.  Operations on documents keep it so, whichever of them fail; settings keep it
so unless they stop before the documents are compiled under them.

## Main definitions

* `Workspace.IsCurrent` — what is known of unchanged documents is what a compilation finds.
* `Workspace.afresh` — a workspace that knows only its documents, configuration and root.
* `Workspace.reply` — the answer to a query from a fresh compilation.

## Main statements

* `Workspace.result_query` — a query in a current workspace is answered from a fresh compilation.
* `openDocument_staysCurrent`, `changeDocument_staysCurrent`, `closeDocument_staysCurrent`,
  `query_staysCurrent` — these keep a workspace current.
* `run_changeSettings` — so do settings that do not stop early.
-/

namespace LanguageServer

namespace Workspace

/-- If the latest compilation saw the documents as they are, the workspace knows what compiling
them now would find.  Nothing is said of one generation of the documents, that under which new
settings stopped early, if they ever did. -/
structure IsCurrent (env : Environment) (spoilt : Option Nat) (ws : Workspace) : Prop where
  bounded : ∀ s, ws.snapshot = some s → s.generation ≤ ws.store.generation
  past : ∀ n, spoilt = some n → n ≤ ws.store.generation
  known : ∀ s, ws.snapshot = some s → s.generation = ws.store.generation →
    spoilt ≠ some ws.store.generation →
    ws.store.size ≠ 0 ∧ ∃ k, ws.learn env = .ok k ∧ ws.Knows k

/-- The workspace that knows only the documents, the configuration and the root. -/
def afresh (ws : Workspace) : Workspace :=
  { empty with store := ws.store, configuration := ws.configuration, base := ws.base }

theorem sameTask_afresh (ws : Workspace) : SameTask ws ws.afresh := ⟨rfl, rfl, rfl⟩

variable {env : Environment} {spoilt : Option Nat}

theorem isCurrent_empty : Workspace.empty.IsCurrent env none := by
  constructor <;> simp [empty]

/-- Documents that were changed since the latest compilation leave nothing to be known. -/
theorem isCurrent_of_lt {ws : Workspace}
    (h : ∀ s, ws.snapshot = some s → s.generation < ws.store.generation)
    (hpast : ∀ n, spoilt = some n → n ≤ ws.store.generation) : ws.IsCurrent env spoilt :=
  ⟨fun s hs => Nat.le_of_lt (h s hs), hpast, fun s hs heq => absurd heq (Nat.ne_of_lt (h s hs))⟩

/-- Nothing is claimed of the documents as they are, if it is for them that settings stopped
early. -/
theorem IsCurrent.spoil {ws ws' : Workspace} (h : ws.IsCurrent env spoilt)
    (hstore : ws'.store = ws.store) (hsnapshot : ws'.snapshot = ws.snapshot) :
    ws'.IsCurrent env (some ws'.store.generation) := by
  refine ⟨fun s hs => ?_, fun n hn => ?_, fun s _ _ hne => absurd rfl hne⟩
  · rw [hstore]
    exact h.bounded s (hsnapshot ▸ hs)
  · exact Nat.le_of_eq (Option.some.inj hn).symm

/-- A workspace stays current if its documents are replaced by newer ones. -/
theorem IsCurrent.newer {ws : Workspace} (h : ws.IsCurrent env spoilt) {store : DocumentStore}
    (hstore : ws.store.generation < store.generation) :
    ({ ws with store } : Workspace).IsCurrent env spoilt :=
  isCurrent_of_lt (fun s hs => Nat.lt_of_le_of_lt (h.bounded s hs) hstore)
    fun n hn => Nat.le_trans (h.past n hn) (Nat.le_of_lt hstore)

/-- A workspace stays current if only line indexes, and what the client was shown, change. -/
theorem IsCurrent.congr {ws ws' : Workspace} (henv : env.IsUniform) (h : ws.IsCurrent env spoilt)
    (htask : SameTask ws ws') (hsnapshot : ws'.snapshot = ws.snapshot)
    (hknows : ∀ k, ws.Knows k → ws'.Knows k) : ws'.IsCurrent env spoilt := by
  constructor
  · intro s hs
    rw [htask.store]
    exact h.bounded s (hsnapshot ▸ hs)
  · rw [htask.store]
    exact h.past
  · intro s hs heq hne
    rw [htask.store] at heq hne ⊢
    obtain ⟨hsize, k, hlearn, hk⟩ := h.known s (hsnapshot ▸ hs) heq hne
    exact ⟨hsize, k, (learn_congr henv htask).trans hlearn, hknows k hk⟩

theorem IsCurrent.recalls {ws ws' : Workspace} (henv : env.IsUniform)
    (h : ws.IsCurrent env spoilt) (hrecall : Recalls ws ws') : ws'.IsCurrent env spoilt := by
  refine h.congr henv ?_ ?_ fun _ => hrecall.knows
  · obtain ⟨indexes, rfl, -⟩ := hrecall
    exact ⟨rfl, rfl, rfl⟩
  · obtain ⟨indexes, rfl, -⟩ := hrecall
    rfl

theorem sameTask_noteVersion (ws : Workspace) (engine : Engine) (version : Option String) :
    SameTask ws (ws.noteVersion engine version) := by
  unfold noteVersion
  cases engine.accepts version <;> exact ⟨rfl, rfl, rfl⟩

theorem sameTask_absorb (ws : Workspace) (k : Knowledge) : SameTask ws (ws.absorb k) :=
  ⟨rfl, rfl, rfl⟩

/-! ## Compiling -/

/-- There are documents, and they have changed since the latest compilation. -/
structure IsOutdated (spoilt : Option Nat) (ws : Workspace) : Prop where
  size : ws.store.size ≠ 0
  older : ∀ s, ws.snapshot = some s → s.generation < ws.store.generation
  past : ∀ n, spoilt = some n → n ≤ ws.store.generation

theorem IsOutdated.isCurrent {ws : Workspace} (h : ws.IsOutdated spoilt) :
    ws.IsCurrent env spoilt := isCurrent_of_lt h.older h.past

/-- A compilation that finds something makes a workspace with documents current. -/
theorem isCurrent_absorb (henv : env.IsUniform) {ws ws' : Workspace} {k : Knowledge}
    (hsize : ws.store.size ≠ 0) (hlearn : ws.learn env = .ok k) (htask : SameTask ws ws')
    (hpast : ∀ n, spoilt = some n → n ≤ ws.store.generation) :
    (ws'.absorb k).IsCurrent env spoilt := by
  have hstore : (ws'.absorb k).store = ws.store := htask.store
  constructor
  · intro s hs
    obtain rfl : (⟨k.program, ws'.store.generation⟩ : Snapshot) = s := Option.some.inj hs
    exact Nat.le_refl _
  · rw [hstore]
    exact hpast
  · intro s hs _ _
    refine ⟨hstore ▸ hsize, k, ?_, knows_absorb ws' k⟩
    exact (learn_congr henv (htask.trans (sameTask_absorb ws' k))).trans hlearn

/-- The state that a compilation leaves, if it is begun for documents that have changed. -/
theorem isCurrent_compile (henv : env.IsUniform) {ws : Workspace} (h : ws.IsOutdated spoilt) :
    ((compile env).run ws).state.IsCurrent env spoilt := by
  cases hlearn : ws.learn env with
  | ok k =>
    rw [(run_compile_of_learn hlearn).2]
    exact isCurrent_absorb henv h.size hlearn (sameTask_noteVersion ws _ _) h.past
  | error f =>
    have hkeep := (discreet_compile env ws).2
    have hsnapshot := (run_compile_of_learn_error hlearn).2
    refine isCurrent_of_lt (fun s hs => ?_) ?_
    · rw [hkeep.store]
      exact h.older s (hsnapshot ▸ hs)
    · rw [hkeep.store]
      exact h.past

/-- What compiling yields, and what is known then. -/
theorem knows_compile {ws : Workspace} :
    ((compile env).run ws).result = (ws.learn env).map (·.program) ∧
      ∀ k, ws.learn env = .ok k → ((compile env).run ws).state.Knows k := by
  refine ⟨?_, fun k hlearn => ?_⟩
  · cases hlearn : ws.learn env with
    | ok k => exact (run_compile_of_learn hlearn).1
    | error f => exact (run_compile_of_learn_error hlearn).1
  · rw [(run_compile_of_learn hlearn).2]
    exact knows_absorb _ k

/-- An up-to-date program leaves a workspace current. -/
theorem isCurrent_upToDate (henv : env.IsUniform) {ws : Workspace} (h : ws.IsCurrent env spoilt)
    (hsize : ws.store.size ≠ 0) : ((upToDate env).run ws).state.IsCurrent env spoilt := by
  unfold upToDate
  rw [Action.run_bind_ok (Action.run_state ws)]
  cases hs : ws.snapshot with
  | none => exact isCurrent_compile henv ⟨hsize, fun s hs' => by simp [hs] at hs', h.past⟩
  | some s =>
    simp only
    by_cases heq : s.generation = ws.store.generation
    · simp only [if_pos heq]
      exact h
    · simp only [if_neg heq]
      refine isCurrent_compile henv ⟨hsize, fun s' hs' => ?_, h.past⟩
      obtain rfl : s = s' := Option.some.inj (hs.symm.trans hs')
      exact Nat.lt_of_le_of_ne (h.bounded s hs) heq

/-- An up-to-date program is that of a fresh compilation, and so is what the workspace then
knows. -/
theorem knows_upToDate {ws : Workspace} (h : ws.IsCurrent env spoilt)
    (hspoilt : spoilt ≠ some ws.store.generation) :
    ((upToDate env).run ws).result = (ws.learn env).map (·.program) ∧
      ∀ k, ws.learn env = .ok k → ((upToDate env).run ws).state.Knows k := by
  unfold upToDate
  rw [Action.run_bind_ok (Action.run_state ws)]
  cases hs : ws.snapshot with
  | none => exact knows_compile
  | some s =>
    simp only
    by_cases heq : s.generation = ws.store.generation
    · obtain ⟨-, k, hlearn, hk⟩ := h.known s hs heq hspoilt
      simp only [if_pos heq, hlearn]
      refine ⟨?_, ?_⟩
      · have hprogram := hk.program
        simp only [hs, Option.map_some, Option.some.injEq] at hprogram
        rw [hprogram]
        rfl
      · rintro k' ⟨rfl⟩
        exact hk
    · simp only [if_neg heq]
      exact knows_compile

/-! ## Queries -/

/-- The answer to a query about a tracked document from a fresh compilation; `f` is the answer in a
view of the compiled sources. -/
def reply {α : Type} (env : Environment)
    (f : View → Program → String → Position → Except Fault α) (ws : Workspace) (uri : String)
    (p : Position) : Except Fault α :=
  if ws.store.contains uri then do
    let k ← ws.learn env
    let source ← (sourceNameFor uri).mapError Fault.uri
    f k.view k.program source p
  else .error (.refused (.of .invalidParams (StoreError.unknown uri).message))

/-- The answer from a fresh compilation does not depend on what happened before. -/
theorem reply_congr {α : Type} (henv : env.IsUniform) {ws ws' : Workspace} (h : SameTask ws ws')
    (f : View → Program → String → Position → Except Fault α) (uri : String) (p : Position) :
    ws'.reply env f uri p = ws.reply env f uri p := by
  unfold reply
  rw [h.store, learn_congr henv h]

theorem run_require (uri : String) (ws : Workspace) :
    (require uri).run ws = if ws.store.contains uri then ⟨[], .ok (), ws⟩
      else ⟨[], .error (.refused (.of .invalidParams (StoreError.unknown uri).message)), ws⟩ := by
  unfold require
  rw [Action.run_bind_ok (Action.run_state ws)]
  by_cases h : ws.store.contains uri <;> simp only [h] <;> rfl

theorem Reads.discreet {α : Type} {a : Action Workspace α} {f : View → Except Fault α}
    (h : Reads a f) : Discreet a := by
  intro ws
  obtain ⟨ws', hrun, indexes, rfl, -⟩ := h ws
  rw [hrun]
  exact ⟨fun entry hentry => absurd hentry List.not_mem_nil, rfl, rfl, rfl, rfl⟩

section Query

variable {α : Type} {answer : Program → String → Position → Action Workspace α}
  {f : View → Program → String → Position → Except Fault α}

/-- A query changes nothing but what is known from compiling, and publishes nothing. -/
theorem discreet_query (env : Environment)
    (hreads : ∀ program source p, Reads (answer program source p) fun v => f v program source p)
    (uri : String) (p : Position) : Discreet (query env answer uri p) := by
  refine .bind ?_ fun _ => .bind (discreet_upToDate env) fun program =>
    .bind (.ofExcept _ _) fun source => Reads.discreet (hreads program source p)
  refine .bind .state fun ws => ?_
  split
  · exact .pure ()
  · exact .stop _

/-- A query in a document that is not tracked is refused. -/
theorem run_query_untracked {ws : Workspace} {uri : String} (h : ws.store.contains uri = false)
    (p : Position) :
    (query env answer uri p).run ws =
      ⟨[], .error (.refused (.of .invalidParams (StoreError.unknown uri).message)), ws⟩ := by
  have hrequire := run_require uri ws
  simp only [h] at hrequire
  unfold query
  rw [Action.run_bind_error hrequire]

/-- A query in a document that is tracked gets an up-to-date program, says nothing else, and reads its
answer off what is known then; line indexes are all that it may leave behind. -/
theorem run_query_tracked (env : Environment)
    (hreads : ∀ program source p, Reads (answer program source p) fun v => f v program source p)
    {ws : Workspace} {uri : String} (h : ws.store.contains uri = true) (p : Position) :
    ((query env answer uri p).run ws).said = ((upToDate env).run ws).said ∧
      Recalls ((upToDate env).run ws).state ((query env answer uri p).run ws).state ∧
      ((query env answer uri p).run ws).result = (do
        let program ← ((upToDate env).run ws).result
        let source ← (sourceNameFor uri).mapError Fault.uri
        f ((upToDate env).run ws).state.view program source p) := by
  have hrequire := run_require uri ws
  simp only [h, if_true] at hrequire
  unfold query
  rw [Action.run_bind_silent hrequire]
  cases hup : (upToDate env).run ws with
  | mk said result ws' =>
    cases result with
    | error e =>
      rw [Action.run_bind_error hup]
      exact ⟨rfl, .refl ws', rfl⟩
    | ok program =>
      obtain ⟨ws'', hrun, hrecall⟩ := ((Reads.ofExcept Fault.uri (sourceNameFor uri)).bind
        fun source => hreads program source p) ws'
      rw [Action.run_bind_ok hup, hrun]
      exact ⟨List.append_nil said, hrecall, rfl⟩

/-- A query in a current workspace is answered from a fresh compilation. -/
theorem result_query
    (hreads : ∀ program source p, Reads (answer program source p) fun v => f v program source p)
    {ws : Workspace} (h : ws.IsCurrent env spoilt) (hspoilt : spoilt ≠ some ws.store.generation)
    (uri : String) (p : Position) :
    ((query env answer uri p).run ws).result = ws.reply env f uri p := by
  unfold reply
  cases htracked : ws.store.contains uri with
  | true =>
    obtain ⟨hresult, hknows⟩ := knows_upToDate h hspoilt
    obtain ⟨-, -, hquery⟩ := run_query_tracked env hreads htracked p
    rw [hquery, hresult, if_pos rfl]
    cases hlearn : ws.learn env with
    | error e => rfl
    | ok k =>
      rw [(hknows k hlearn).view]
      rfl
  | false =>
    rw [run_query_untracked htracked]
    rfl

end Query

/-! ## Publishing -/

/-- The property holds again at the end, and wherever publishing fails. -/
abbrev StaysCurrent {α : Type} (env : Environment) (spoilt : Option Nat)
    (a : Action Workspace α) : Prop :=
  a.Steady (·.isPush = true) (IsCurrent env spoilt)

theorem compile_leads (henv : env.IsUniform) :
    (compile env).Leads (·.isPush = true) (IsOutdated spoilt)
      (IsCurrent env spoilt) :=
  .of_within (discreet_compile env) (fun _ => Effect.IsAside.not_isPush) fun _ h =>
    isCurrent_compile henv h

theorem diagnosticsByUri_staysCurrent (henv : env.IsUniform) (program : Program) :
    StaysCurrent env spoilt (diagnosticsByUri env program) := by
  refine .of_within (discreet_diagnosticsByUri env program)
    (fun _ => Effect.IsAside.not_isPush) fun ws h => ?_
  unfold diagnosticsByUri
  rw [Action.run_bind_ok (Action.run_state ws)]
  obtain ⟨-, -, hrecall⟩ := run_sortFindings env.reporter .empty
    (program.findings ++ ws.importFailures program) ws
  exact h.recalls henv hrecall

theorem IsCurrent.published (henv : env.IsUniform) {ws : Workspace}
    (h : ws.IsCurrent env spoilt) (published : List String) :
    ({ ws with published } : Workspace).IsCurrent env spoilt :=
  h.congr henv ⟨rfl, rfl, rfl⟩ rfl fun _ hk => ⟨hk.program, hk.view, hk.readFailures⟩

theorem IsCurrent.evict {ws : Workspace} (h : ws.IsCurrent env spoilt) (garbage : List String) :
    ({ ws with store := (ws.store.evict garbage).1 } : Workspace).IsCurrent env spoilt := by
  rcases ws.store.evict_cases garbage with heq | hgeneration
  · rw [heq]
    exact h
  · exact h.newer (by omega)

/-- Publishing changes only what the client is known to be shown. -/
theorem publish_steady {P : Effect → Prop} {I : Workspace → Prop}
    (hpublished : ∀ ws published, I ws → I { ws with published }) (uri : String)
    (version : Option Int) (diagnostics : List Diagnostic) :
    (publish uri version diagnostics).Steady P I :=
  .bind (.say _) fun _ => .update fun _ h => hpublished _ _ h

theorem publish_staysCurrent (henv : env.IsUniform) (uri : String) (version : Option Int)
    (diagnostics : List Diagnostic) : StaysCurrent env spoilt (publish uri version diagnostics) :=
  publish_steady (fun _ published h => h.published henv published) uri version diagnostics

theorem validate_leads (henv : env.IsUniform) (uri : String) :
    (validate env uri).Leads (·.isPush = true) (IsOutdated spoilt)
      (IsCurrent env spoilt) := by
  refine .andThen .state (fun ws => .andThen (.ofExcept _ _) (fun d => ?_) ?_) ?_
  · exact .andThen (compile_leads henv) (fun program =>
      .bind (diagnosticsByUri_staysCurrent henv program) fun t =>
        publish_staysCurrent henv _ _ _) fun _ h => h
  · exact fun _ => IsOutdated.isCurrent
  · exact fun _ => IsOutdated.isCurrent

/-- Publishing what was found keeps a workspace current. -/
theorem publishAll_staysCurrent (henv : env.IsUniform) (program : Program) :
    StaysCurrent env spoilt (do
      let t ← diagnosticsByUri env program
      Action.forAll (publishFrom t) ((← Action.state).targets t)) :=
  .bind (diagnosticsByUri_staysCurrent henv program) fun _ => .bind .state fun _ =>
    .forAll (fun _ => .bind .state fun _ => publish_staysCurrent henv _ _ _) _

theorem validateAll_leads (henv : env.IsUniform) :
    (validateAll env).Leads (·.isPush = true) (IsOutdated spoilt)
      (IsCurrent env spoilt) := by
  exact .andThen (compile_leads henv) (publishAll_staysCurrent henv) fun _ h => h

end Workspace

open Workspace

variable {env : Environment} {spoilt : Option Nat}

/-! ## Capabilities -/

theorem openDocument_staysCurrent (henv : env.IsUniform) (d : Params.Opened) :
    StaysCurrent env spoilt (openDocument env d) := by
  refine .andThen (.update fun ws h => ?_) (fun _ => validate_leads henv d.uri) ?_
  · refine ⟨?_, fun s hs => Nat.lt_succ_of_le (h.bounded s hs),
      fun n hn => Nat.le_succ_of_le (h.past n hn)⟩
    exact DocumentStore.size_ne_zero_of_contains
      (ws.store.contains_track d.uri d.language (some d.version) d.content)
  · exact fun _ => IsOutdated.isCurrent

/-- Requiring a document leaves every property as it was. -/
theorem require_steady (P : Effect → Prop) (I : Workspace → Prop) (uri : String) :
    (require uri).Steady P I := by
  refine .bind .state fun ws => ?_
  split
  · exact .pure ()
  · exact .stop _

theorem requireValue_steady (P : Effect → Prop) (I : Workspace → Prop) (v : Json) :
    (requireValue v).Steady P I := by
  unfold requireValue
  split
  · exact .bind (require_steady P I _) fun _ => .pure _
  · exact .stop _
  · exact .stop _
  · exact .stop _

theorem changeDocument_staysCurrent (henv : env.IsUniform) (uri : Json) (version : Option Int)
    (changes : List ContentChange) :
    StaysCurrent env spoilt (changeDocument env uri version changes) := by
  refine .bind (requireValue_steady _ _ uri) fun uri => .state_bind fun ws h => ?_
  cases hedits : ws.store.applyEdits uri version (changes.filterMap ContentChange.edit?) with
  | error e => exact .weaken (.stop _) fun s hs => hs ▸ h
  | ok store =>
    have hgeneration := DocumentStore.generation_applyEdits hedits
    have hcontains := DocumentStore.contains_applyEdits hedits
    refine .andThen (J := IsOutdated spoilt) (.update fun s hs => ?_)
      (fun _ => validateAll_leads henv) ?_
    · subst hs
      refine ⟨DocumentStore.size_ne_zero_of_contains hcontains,
        fun snapshot hsnapshot => ?_, fun n hn => ?_⟩
      · show _ < store.generation
        rw [hgeneration]
        exact Nat.lt_succ_of_le (h.bounded snapshot hsnapshot)
      · show _ ≤ store.generation
        rw [hgeneration]
        exact Nat.le_succ_of_le (h.past n hn)
    · exact fun _ => IsOutdated.isCurrent

/-- A collection only evicts documents and publishes. -/
theorem collectGarbage_steady {P : Effect → Prop} {I : Workspace → Prop}
    (hpublished : ∀ ws published, I ws → I { ws with published })
    (hevict : ∀ ws garbage, I ws → I { ws with store := (ws.store.evict garbage).1 }) :
    collectGarbage.Steady P I := by
  refine .state_bind fun ws h => ?_
  have hsame (s : Workspace) (hs : s = ws) : I s := hs ▸ h
  cases ws.snapshot with
  | none => exact .weaken (.pure _) hsame
  | some snapshot =>
    refine .andThen (.ofExcept _ _) (fun opened => ?_) hsame
    refine .andThen (.ofExcept _ _) (fun garbage => ?_) hsame
    show Action.Leads _ (· = ws) _ (Action.update
      (fun s => { s with store := (ws.store.evict garbage).1 }) >>= fun _ => _)
    refine .andThen (.update fun s hs => ?_)
      (fun _ => .bind (.forAll (fun _ => publish_steady hpublished _ _ _) _) fun _ => .pure _)
      fun _ hs => hs
    subst hs
    exact hevict s garbage h

/-- Closing a document only marks it closed, evicts documents, and publishes. -/
theorem closeDocument_steady {P : Effect → Prop} {I : Workspace → Prop}
    (hpublished : ∀ ws published, I ws → I { ws with published })
    (hevict : ∀ ws garbage, I ws → I { ws with store := (ws.store.evict garbage).1 })
    (hclose : ∀ ws uri store, ws.store.close uri = .ok store → I ws → I { ws with store })
    (uri : String) : (closeDocument uri).Steady P I := by
  refine .bind (require_steady _ _ uri) fun _ => .state_bind fun ws h => ?_
  refine .ofExcept_bind (fun store hstore => ?_) fun s hs => hs ▸ h
  refine .andThen (J := I) (.update fun s hs => ?_) (fun _ => ?_) fun _ hs => hs
  · subst hs
    exact hclose s uri store hstore h
  · exact .bind (.bind .state fun _ => publish_steady hpublished _ _ _) fun _ =>
      .bind (collectGarbage_steady hpublished hevict) fun _ => .pure _

theorem closeDocument_staysCurrent (henv : env.IsUniform) (uri : String) :
    StaysCurrent env spoilt (closeDocument uri) :=
  closeDocument_steady (fun _ published h => h.published henv published)
    (fun _ garbage h => h.evict garbage)
    (fun _ _ _ hclose h => h.newer (by have := DocumentStore.generation_close hclose; omega)) uri

/-- Applying settings changes the configuration only, and ends early only because of a path. -/
theorem run_applySettings (env : Environment) (settings : Json) (ws : Workspace) :
    (applySettings env settings).run ws =
      let r := ws.configuration.update env.files ws.base settings.toData
      match r.2 with
      | .ok refused =>
        ⟨refused.map fun e => (.log .error ("Invalid configuration: " ++ e.message),
          { ws with configuration := r.1 }), .ok (), { ws with configuration := r.1 }⟩
      | .error e => ⟨[], .error (.path e), { ws with configuration := r.1 }⟩ := by
  unfold applySettings
  rw [Action.run_bind_ok (Action.run_state ws)]
  cases hupdate : ws.configuration.update env.files ws.base settings.toData with
  | mk configuration outcome =>
    simp only
    rw [Action.run_bind_ok (Action.run_update _ _)]
    cases outcome with
    | error e => rfl
    | ok refused =>
      have htaken : (Action.ofExcept Fault.path (.ok refused)).run { ws with configuration } =
          ⟨[], .ok refused, { ws with configuration }⟩ := rfl
      rw [Action.run_bind_ok htaken, Action.run_forAll_say]
      rfl

/-- Compiling and publishing under another configuration makes a workspace current, or nothing is
compiled. -/
theorem run_validateAll_configured (henv : env.IsUniform) {ws : Workspace}
    (h : ws.IsCurrent env spoilt) (hsize : ws.store.size ≠ 0) (configuration : Configuration) :
    (∀ entry ∈ ((validateAll env).run { ws with configuration }).said, entry.1.isPush = true →
        entry.2.IsCurrent env spoilt) ∧
      (((validateAll env).run { ws with configuration }).state.IsCurrent env spoilt ∨
        ((validateAll env).run { ws with configuration }).state.IsCurrent env
            (some ((validateAll env).run { ws with configuration }).state.store.generation) ∧
          ∃ f, ((validateAll env).run { ws with configuration }).result = .error f ∧
            f.stopsCompiling = true) := by
  obtain ⟨hsaid, hkeep⟩ := discreet_compile env { ws with configuration }
  have hquiet : ∀ entry ∈ ((compile env).run { ws with configuration }).said,
      ¬ entry.1.isPush = true := fun entry hentry =>
    (hsaid entry hentry).1.not_isPush
  unfold validateAll
  cases hlearn : ({ ws with configuration } : Workspace).learn env with
  | error f =>
    obtain ⟨hresult, hsnapshot⟩ := run_compile_of_learn_error hlearn
    cases hrun : (compile env).run { ws with configuration } with
    | mk said result ws' =>
      rw [hrun] at hquiet hkeep hresult hsnapshot
      obtain rfl : result = .error f := hresult
      rw [Action.run_bind_error hrun]
      refine ⟨fun entry hentry hpush => absurd hpush (hquiet entry hentry), ?_⟩
      rcases learn_eq_error hlearn with hstops | ⟨e, rfl, hnames⟩
      · exact .inr ⟨h.spoil hkeep.store hsnapshot, f, rfl, hstops⟩
      · -- Documents that cannot be named now could not be named before either.
        refine .inl ⟨?_, hkeep.store ▸ h.past, fun s hs heq hne => ?_⟩
        · exact fun s hs => hkeep.store ▸ h.bounded s (hsnapshot ▸ hs)
        · rw [hkeep.store] at heq hne
          obtain ⟨-, k, hlearned, -⟩ := h.known s (hsnapshot ▸ hs) heq hne
          obtain ⟨sources, hnamed⟩ := named_of_learn hlearned
          exact absurd ((congrArg Prod.snd hnamed).symm.trans hnames) (by simp)
  | ok k =>
    obtain ⟨hresult, hstate⟩ := run_compile_of_learn hlearn
    have hcurrent : ((compile env).run { ws with configuration }).state.IsCurrent env spoilt := by
      rw [hstate]
      have hsize' : ({ ws with configuration } : Workspace).store.size ≠ 0 := hsize
      exact isCurrent_absorb henv hsize' hlearn (sameTask_noteVersion _ _ _) h.past
    cases hrun : (compile env).run { ws with configuration } with
    | mk said result ws' =>
      rw [hrun] at hquiet hresult hcurrent
      obtain rfl : result = .ok k.program := hresult
      rw [Action.run_bind_ok hrun]
      obtain ⟨hpushes, hend⟩ := publishAll_staysCurrent henv k.program ws' hcurrent
      refine ⟨fun entry hentry hpush => ?_, .inl hend⟩
      rcases List.mem_append.1 hentry with hmem | hmem
      · exact absurd hpush (hquiet entry hmem)
      · exact hpushes entry hmem hpush

/-- New settings keep a workspace current, unless they stop before the documents are compiled under
them; then the documents are as they were. -/
theorem run_changeSettings (henv : env.IsUniform) {ws : Workspace} (h : ws.IsCurrent env spoilt)
    (settings : Json) :
    (∀ entry ∈ ((changeSettings env settings).run ws).said, entry.1.isPush = true →
        entry.2.IsCurrent env spoilt) ∧
      (((changeSettings env settings).run ws).state.IsCurrent env spoilt ∨
        ((changeSettings env settings).run ws).state.IsCurrent env
            (some ((changeSettings env settings).run ws).state.store.generation) ∧
        ∃ f, ((changeSettings env settings).run ws).result = .error f ∧
          f.stopsCompiling = true) := by
  have happly := run_applySettings env settings ws
  generalize ws.configuration.update env.files ws.base settings.toData = r at happly
  obtain ⟨configuration, outcome⟩ := r
  unfold changeSettings
  cases outcome with
  | error e =>
    simp only at happly
    rw [Action.run_bind_error happly]
    exact ⟨by simp, .inr ⟨h.spoil rfl rfl, _, rfl, rfl⟩⟩
  | ok refused =>
    simp only at happly
    rw [Action.run_bind_ok happly, Action.run_bind_ok (Action.run_state _)]
    have hlogs : ∀ entry ∈ refused.map fun e =>
        (Effect.log .error ("Invalid configuration: " ++ e.message), { ws with configuration }),
        entry.1.isPush = true → entry.2.IsCurrent env spoilt := by
      intro entry hentry hpush
      obtain ⟨e, -, rfl⟩ := List.mem_map.1 hentry
      simp [Effect.isPush] at hpush
    by_cases hsize : ws.store.size = 0
    · simp only [hsize, ne_eq, not_true_eq_false, if_false]
      refine ⟨by simpa using hlogs, .inl ⟨h.bounded, h.past, fun s hs heq hne => ?_⟩⟩
      exact absurd hsize (h.known s hs heq hne).1
    · simp only [ne_eq, hsize, not_false_eq_true, if_true]
      obtain ⟨hsaid, hend⟩ := run_validateAll_configured henv h hsize configuration
      refine ⟨fun entry hentry hpush => ?_, hend⟩
      rcases List.mem_append.1 hentry with hmem | hmem
      · exact hlogs entry hmem hpush
      · exact hsaid entry (by simpa using hmem) hpush

/-- Queries that look places up only get an up-to-date program and use line indexes. -/
theorem query_steady {α : Type} {I : Workspace → Prop}
    {answer : Program → String → Position → Action Workspace α}
    {f : View → Program → String → Position → Except Fault α}
    (hupToDate : ∀ ws, ws.store.size ≠ 0 → I ws → I ((upToDate env).run ws).state)
    (hrecalls : ∀ ws ws', Recalls ws ws' → I ws → I ws')
    (hreads : ∀ program source p, Reads (answer program source p) fun v => f v program source p)
    (uri : String) (p : Position) : (query env answer uri p).Steady (·.isPush = true) I := by
  refine .of_within (discreet_query env hreads uri p) (fun _ => Effect.IsAside.not_isPush) fun ws h => ?_
  cases htracked : ws.store.contains uri with
  | true =>
    obtain ⟨-, hrecall, -⟩ := run_query_tracked env hreads htracked p
    exact hrecalls _ _ hrecall (hupToDate ws (DocumentStore.size_ne_zero_of_contains htracked) h)
  | false =>
    rw [run_query_untracked htracked]
    exact h

/-- Queries that look places up keep a workspace current. -/
theorem query_staysCurrent {α : Type} (henv : env.IsUniform)
    {answer : Program → String → Position → Action Workspace α}
    {f : View → Program → String → Position → Except Fault α}
    (hreads : ∀ program source p, Reads (answer program source p) fun v => f v program source p)
    (uri : String) (p : Position) : StaysCurrent env spoilt (query env answer uri p) :=
  query_steady (fun _ hsize h => isCurrent_upToDate henv h hsize)
    (fun _ _ hrecall h => h.recalls henv hrecall) hreads uri p

/-- Preparing a workspace changes its root and its configuration only. -/
theorem prepare_steady {P : Effect → Prop} {I : Workspace → Prop}
    (hbase : ∀ ws base, I ws → I { ws with base })
    (hconfiguration : ∀ ws configuration, I ws → I { ws with configuration }) (id : ServerId)
    (root : Json) (folders : List WorkspaceFolder) (options : Json) :
    (prepare env id root folders options).Steady P I := by
  have happly : (applySettings env options).Steady P I :=
    .bind .state fun ws => .bind (.update fun _ h => hconfiguration _ _ h) fun _ =>
      .bind (.ofExcept _ _) fun refused => .forAll (fun _ => .say _) refused
  have hdirectory (uri : String) : (rootDirectory env uri).Steady P I := by
    rw [rootDirectory_eq]
    refine .bind ?_ fun path => ?_
    · split
      · exact .ofExcept _ _
      · exact .pure _
    · cases path with
      | none => exact .stop _
      | some path => exact .ofExcept _ _
  have hopen (uri : String) : (openRoot env uri).Steady P I := by
    refine .bind (hdirectory uri) fun base => .bind (.update fun ws h => hbase ws _ h) fun _ => ?_
    split
    · exact .update fun ws h => hconfiguration ws _ h
    · exact .bind (.say _) fun _ => .update fun ws h => hconfiguration ws _ h
    · exact .stop _
    · exact .stop _
  unfold prepare
  split
  · exact .bind happly fun _ => .pure _
  · exact .bind (hopen _) fun _ => .bind happly fun _ => .pure _
  · exact .bind (.stop _) fun _ => .bind happly fun _ => .pure _

end LanguageServer
