import LanguageServer.Compiler.Prepared
import LanguageServer.Proofs.Workspace.Frame
import Mathlib.Data.List.Permutation

/-!
# What the client is shown

A workspace remembers for which documents the client shows something.  The record is
right as long as it changes together with what is published, also if publishing fails in
the middle of an operation.  From this it follows that publishing the diagnostics of all
documents leaves nothing stale behind: whatever the client shows afterwards, for any
document at all, is what the compilation found.

## Main definitions

* `lastShown` — the diagnostics that were last published for a document.
* `Workspace.Records` — the record of a workspace agrees with what was published.
* `Operation` — what can be done with a workspace.
* `Dealings` — a workspace together with a recipient and what the recipient heard.

## Main statements

* `Dealings.recorded_performAll` — the record is right after any operations.
* `Dealings.lastShown_eq_of_validateAll` — publishing all leaves nothing stale.
-/

namespace LanguageServer

/-! ## What was last shown -/

/-- The diagnostics that an effect publishes for a document, if it does. -/
def Effect.pushFor? (uri : String) : Effect → Option (List Diagnostic)
  | .publish target _ diagnostics => if target = uri then some diagnostics else none
  | _ => none

/-- The document for which an effect publishes diagnostics, if it does. -/
def Effect.target? : Effect → Option String
  | .publish target _ _ => some target
  | _ => none

/-- The diagnostics that were last published for a document; none, if nothing was. -/
def lastShown (uri : String) (heard : List Effect) : List Diagnostic :=
  (heard.reverse.findSome? (Effect.pushFor? uri)).getD []

@[simp] theorem lastShown_nil (uri : String) : lastShown uri [] = [] := rfl

theorem lastShown_append_aside (uri : String) (heard : List Effect) {e : Effect}
    (he : e.IsAside) : lastShown uri (heard ++ [e]) = lastShown uri heard := by
  have hnone : e.pushFor? uri = none := by
    cases e with
    | publish => simp [Effect.IsAside, Effect.isPush] at he
    | _ => rfl
  simp [lastShown, hnone]

theorem lastShown_append_asides (uri : String) (heard : List Effect) {l : List Effect}
    (hl : ∀ e ∈ l, e.IsAside) : lastShown uri (heard ++ l) = lastShown uri heard := by
  induction l generalizing heard with
  | nil => simp
  | cons e rest ih =>
    rw [List.append_cons, ih _ fun e' he' => hl e' (List.mem_cons_of_mem _ he'),
      lastShown_append_aside uri heard (hl e List.mem_cons_self)]

@[simp] theorem lastShown_append_publish (uri target : String) (version : Option Int)
    (diagnostics : List Diagnostic) (heard : List Effect) :
    lastShown uri (heard ++ [.publish target version diagnostics]) =
      if target = uri then diagnostics else lastShown uri heard := by
  by_cases h : target = uri <;> simp [lastShown, Effect.pushFor?, h]

/-- After one publication for each of some documents, these show what was published for them, and
the others show what they did. -/
theorem lastShown_append_publications (uri : String) (version : String → Option Int)
    (diagnostics : String → List Diagnostic) (heard : List Effect) (targets : List String) :
    lastShown uri (heard ++ targets.map fun u => .publish u (version u) (diagnostics u)) =
      if uri ∈ targets then diagnostics uri else lastShown uri heard := by
  induction targets generalizing heard with
  | nil => simp
  | cons u rest ih =>
    rw [List.map_cons, List.append_cons, ih, lastShown_append_publish]
    by_cases hrest : uri ∈ rest
    · simp [hrest]
    · by_cases hu : u = uri
      · simp [hu]
      · simp [hrest, hu, Ne.symm hu]

namespace Workspace

/-! ## The record of what is shown -/

/-- The record names exactly the documents for which something is shown. -/
def Records (heard : List Effect) (ws : Workspace) : Prop :=
  ∀ uri, uri ∈ ws.published ↔ lastShown uri heard ≠ []

theorem records_empty : Records [] .empty := by simp [Records, empty]

theorem mem_notePublished (ws : Workspace) (uri target : String)
    (diagnostics : List Diagnostic) :
    uri ∈ (ws.notePublished target diagnostics).published ↔
      if target = uri then diagnostics ≠ [] else uri ∈ ws.published := by
  unfold notePublished
  by_cases hd : diagnostics = []
  · by_cases hu : target = uri
    · simp [hd, hu]
    · simp [hd, hu, Ne.symm hu]
  · by_cases hm : target ∈ ws.published <;> by_cases hu : target = uri
    · subst hu; simp [hd, hm]
    · simp [hd, hm, hu]
    · subst hu; simp [hd, hm]
    · simp [hd, hm, hu, Ne.symm hu]

/-- Publishing keeps the record right, also if it fails. -/
theorem publish_maintains (uri : String) (version : Option Int)
    (diagnostics : List Diagnostic) : (publish uri version diagnostics).Maintains Records := by
  intro heard ws h
  refine ⟨⟨h, trivial⟩, fun u => ?_⟩
  show u ∈ (ws.notePublished uri diagnostics).published ↔
    lastShown u (heard ++ [.publish uri version diagnostics]) ≠ []
  rw [mem_notePublished, lastShown_append_publish]
  split
  · rfl
  · exact h u

theorem Discreet.maintains {α : Type} {a : Action Workspace α} (ha : Discreet a) :
    a.Maintains Records :=
  Action.Within.maintains ha
    (fun _ _ _ hkeep h uri => by rw [hkeep.published]; exact h uri)
    (fun heard e ws he => by simp [Records, lastShown_append_aside _ heard he])

theorem validate_maintains (env : Environment) (uri : String) :
    (validate env uri).Maintains Records :=
  .bind .state fun _ => .bind (.ofExcept _ _) fun _ =>
    .bind (discreet_compile env).maintains fun program =>
      .bind (discreet_diagnosticsByUri env program).maintains fun _ => publish_maintains _ _ _

theorem validateAll_maintains (env : Environment) : (validateAll env).Maintains Records :=
  .bind (discreet_compile env).maintains fun program =>
    .bind (discreet_diagnosticsByUri env program).maintains fun _ =>
      .bind .state fun _ => .forAll (fun _ => .bind .state fun _ => publish_maintains _ _ _) _

theorem clear_maintains (uri : String) : (clear uri).Maintains Records :=
  .bind .state fun _ => publish_maintains _ _ _

theorem collectGarbage_maintains : collectGarbage.Maintains Records := by
  refine .bind .state fun ws => ?_
  split
  · exact .pure _
  · exact .bind (.ofExcept _ _) fun _ => .bind (.ofExcept _ _) fun _ =>
      .bind (.update fun _ _ h => h) fun _ =>
        .bind (.forAll (fun _ => publish_maintains _ _ _) _) fun _ => .pure _

end Workspace

/-! ## Operations on a workspace -/

/-- What can be done with a workspace. -/
inductive Operation where
  /-- Changes the documents in any way, or refuses to. -/
  | mutate (change : DocumentStore → Except StoreError DocumentStore)
  | configure (configuration : Configuration)
  | setBase (base : Option Path)
  | compile
  | snapshot
  | validate (uri : String)
  | validateAll
  | clear (uri : String)
  | collectGarbage

namespace Operation

open Workspace

/-- The action of an operation; what it yields is not kept. -/
def action (env : Environment) : Operation → Action Workspace Unit
  | mutate change => do
    let store ← Action.ofExcept .store (change (← Action.state).store)
    Action.update fun ws => { ws with store }
  | configure configuration => Action.update fun ws => { ws with configuration }
  | setBase base => Action.update fun ws => { ws with base }
  | compile => do let _ ← Workspace.compile env
  | snapshot => do let _ ← upToDate env
  | validate uri => Workspace.validate env uri
  | validateAll => Workspace.validateAll env
  | clear uri => Workspace.clear uri
  | collectGarbage => do let _ ← Workspace.collectGarbage

theorem action_maintains (env : Environment) (op : Operation) :
    (op.action env).Maintains Records := by
  cases op with
  | mutate change =>
    exact .bind .state fun _ => .bind (.ofExcept _ _) fun _ => .update fun _ _ h => h
  | configure configuration => exact .update fun _ _ h => h
  | setBase base => exact .update fun _ _ h => h
  | compile => exact .bind (discreet_compile env).maintains fun _ => .pure _
  | snapshot => exact .bind (discreet_upToDate env).maintains fun _ => .pure _
  | validate uri => exact validate_maintains env uri
  | validateAll => exact validateAll_maintains env
  | clear uri => exact clear_maintains uri
  | collectGarbage => exact .bind collectGarbage_maintains fun _ => .pure _

end Operation

/-! ## Dealings with a recipient -/

/-- A workspace together with the state of its recipient and what the recipient heard. -/
structure Dealings (κ : Type) where
  recipient : κ
  heard : List Effect := []
  workspace : Workspace := .empty

namespace Dealings

open Workspace

variable {κ α : Type}

/-- Runs an action and delivers what it says: how it ended, and what came of it. -/
def perform (r : Recipient κ) (d : Dealings κ) (a : Action Workspace α) :
    Except Fault α × Dealings κ :=
  match (a.run d.workspace).deliver r.recording (d.recipient, d.heard) with
  | ((recipient, heard), result, workspace) => (result, { recipient, heard, workspace })

/-- Performs operations in order; one that fails does not keep the next from being tried. -/
def performAll (env : Environment) (r : Recipient κ) (d : Dealings κ) (ops : List Operation) :
    Dealings κ :=
  ops.foldl (fun d op => (d.perform r (op.action env)).2) d

/-- If an action is performed without a fault, all that it says is heard. -/
theorem perform_eq_ok {r : Recipient κ} {d d' : Dealings κ} {a : Action Workspace α} {x : α}
    (h : d.perform r a = (.ok x, d')) :
    (a.run d.workspace).result = .ok x ∧
      d'.heard = d.heard ++ (a.run d.workspace).said.map (·.1) := by
  have hdeliver := Run.deliver_ok r (a.run d.workspace) d.recipient d.heard (x := x)
  unfold perform at h
  split at h
  next k heard result ws hd =>
    obtain ⟨rfl, rfl⟩ := Prod.mk.inj h
    rw [hd] at hdeliver
    obtain ⟨hheard, hresult, -⟩ := hdeliver rfl
    exact ⟨hresult, hheard⟩

/-- The record is right. -/
def Recorded (d : Dealings κ) : Prop := d.workspace.Records d.heard

theorem recorded_perform (r : Recipient κ) {d : Dealings κ} (h : d.Recorded)
    {a : Action Workspace α} (ha : a.Maintains Records) : (d.perform r a).2.Recorded :=
  Run.deliver_maintains r ha d.recipient d.heard d.workspace h

/-- The record is right after any operations, whichever of them fail. -/
theorem recorded_performAll (env : Environment) (r : Recipient κ) (k : κ)
    (ops : List Operation) :
    (performAll env r { recipient := k } ops).Recorded := by
  have hrun : ∀ d : Dealings κ, d.Recorded → (performAll env r d ops).Recorded := by
    induction ops with
    | nil => exact fun _ h => h
    | cons op rest ih =>
      exact fun d h => ih _ (recorded_perform r h (op.action_maintains env))
  exact hrun _ records_empty

end Dealings

/-! ## Publishing all diagnostics -/

namespace Workspace

/-- Publishing from a table says one thing for each document. -/
theorem said_forAll_publishFrom (t : DiagnosticTable) (targets : List String) (ws : Workspace) :
    ((Action.forAll (publishFrom t) targets).run ws).said.map (·.1) =
      targets.map fun uri => .publish uri (ws.versionOf uri) (diagnosticsOf t uri) := by
  induction targets generalizing ws with
  | nil => rfl
  | cons uri rest ih =>
    have hstep : (publishFrom t uri).run ws =
        ⟨[(.publish uri (ws.versionOf uri) (diagnosticsOf t uri), ws)], .ok (),
          ws.notePublished uri (diagnosticsOf t uri)⟩ := rfl
    show (((publishFrom t uri) >>= fun _ => Action.forAll (publishFrom t) rest).run ws).said.map
      (·.1) = _
    rw [Action.run_bind_ok hstep]
    simp only [List.map_append, ih]
    rfl

/-- Publishing all diagnostics compiles once, sorts what was found, and then says one thing for each
target; before that it publishes nothing. -/
theorem said_validateAll {env : Environment} {ws : Workspace} {u : Unit}
    (h : ((validateAll env).run ws).result = .ok u) :
    ∃ program t asides sorted,
      ((compile env).run ws).result = .ok program ∧
      ((diagnosticsByUri env program).run ((compile env).run ws).state).result = .ok t ∧
      Keeps ws sorted ∧ (∀ e ∈ asides, e.IsAside) ∧
      ((validateAll env).run ws).said.map (·.1) = asides ++ (sorted.targets t).map fun uri =>
        .publish uri (sorted.versionOf uri) (diagnosticsOf t uri) := by
  obtain ⟨program, hprogram, hrest, hsaid, -⟩ := Action.run_bind_eq_ok h
  obtain ⟨t, ht, -, hsaid', -⟩ := Action.run_bind_eq_ok hrest
  obtain ⟨hcompile, hkeep⟩ := discreet_compile env ws
  obtain ⟨hsort, hkeep'⟩ := discreet_diagnosticsByUri env program ((compile env).run ws).state
  refine ⟨program, t,
    ((compile env).run ws).said.map (·.1) ++
      ((diagnosticsByUri env program).run ((compile env).run ws).state).said.map (·.1),
    ((diagnosticsByUri env program).run ((compile env).run ws).state).state,
    hprogram, ht, hkeep.trans _ _ _ hkeep', fun e he => ?_, ?_⟩
  · rcases List.mem_append.1 he with he | he
    · obtain ⟨entry, hentry, rfl⟩ := List.mem_map.1 he
      exact (hcompile entry hentry).1
    · obtain ⟨entry, hentry, rfl⟩ := List.mem_map.1 he
      exact (hsort entry hentry).1
  · rw [validateAll, hsaid, hsaid', List.map_append, List.map_append, List.append_assoc,
      Action.run_bind_ok (Action.run_state _), ← said_forAll_publishFrom]
    rfl

theorem nodup_eraseDups (l : List String) : l.eraseDups.Nodup := by
  induction hn : l.length using Nat.strongRecOn generalizing l with
  | ind n ih =>
    cases l with
    | nil => simp
    | cons a rest =>
      have hlen : (rest.filter fun b => !b == a).length < n := by
        have := List.length_filter_le (fun b => !b == a) rest
        simp only [List.length_cons] at hn
        omega
      rw [List.eraseDups_cons, List.nodup_cons]
      exact ⟨by simp [List.mem_eraseDups], ih _ hlen _ rfl⟩

theorem nodup_targets (ws : Workspace) (t : DiagnosticTable) : (ws.targets t).Nodup :=
  (Text.sorted_perm _).nodup_iff.2 (nodup_eraseDups _)

theorem mem_targets {ws : Workspace} {t : DiagnosticTable} {uri : String} :
    uri ∈ ws.targets t ↔
      (∃ d ∈ ws.store.toList, d.uri = uri) ∨ uri ∈ ws.published ∨ uri ∈ t.keys := by
  simp [targets, List.mem_eraseDups]

/-- There are no diagnostics for a document that is not in the table. -/
theorem diagnosticsOf_eq_nil {t : DiagnosticTable} {uri : String} (h : uri ∉ t.keys) :
    diagnosticsOf t uri = [] := by
  have hnone : t.find? uri = none := by
    cases hf : t.find? uri with
    | none => rfl
    | some d => exact absurd ((t.contains_iff_mem_keys uri).1 (by simp [Table.contains, hf])) h
  simp [diagnosticsOf, hnone]

end Workspace

namespace Dealings

open Workspace

variable {κ : Type}

/-- The result of compiling is published for every document: after all diagnostics were published
without a fault, each document, tracked or not, shows exactly what was found for it in this
compilation; each one is published at most once, and those that have nothing to show any more are
told so. -/
theorem lastShown_eq_of_validateAll (env : Environment) (r : Recipient κ) (k : κ)
    (ops : List Operation) {before after : Dealings κ}
    (hbefore : before = performAll env r { recipient := k } ops)
    (hafter : before.perform r (validateAll env) = (.ok (), after)) :
    ∃ program t pushes,
      ((compile env).run before.workspace).result = .ok program ∧
      ((diagnosticsByUri env program).run ((compile env).run before.workspace).state).result
        = .ok t ∧
      (∀ uri, lastShown uri after.heard = diagnosticsOf t uri) ∧
      after.heard = before.heard ++ pushes ∧
      (pushes.filterMap Effect.target?).Nodup ∧
      ∀ uri, lastShown uri before.heard ≠ [] → diagnosticsOf t uri = [] →
        ∃ version, .publish uri version [] ∈ pushes := by
  have hrecord : before.workspace.Records before.heard :=
    hbefore ▸ recorded_performAll env r k ops
  obtain ⟨hresult, hheard⟩ := perform_eq_ok hafter
  obtain ⟨program, t, asides, sorted, hprogram, ht, hkeep, hasides, hsaid⟩ :=
    said_validateAll hresult
  rw [hsaid] at hheard
  have hshown : ∀ uri, lastShown uri after.heard = diagnosticsOf t uri := by
    intro uri
    rw [hheard, ← List.append_assoc, lastShown_append_publications,
      lastShown_append_asides uri _ hasides]
    split
    · rfl
    · next htarget =>
      -- Nothing is found for a document that is no target, and nothing was shown for it.
      simp only [mem_targets, not_or] at htarget
      obtain ⟨-, hpublished, hkeys⟩ := htarget
      rw [hkeep.published] at hpublished
      have hnone : lastShown uri before.heard = [] := by
        simpa using mt (hrecord uri).2 hpublished
      rw [hnone, diagnosticsOf_eq_nil hkeys]
  refine ⟨program, t, _, hprogram, ht, hshown, hheard, ?_, fun uri hbefore hgone => ?_⟩
  · have hnone : asides.filterMap Effect.target? = [] := by
      rw [List.filterMap_eq_nil_iff]
      intro e he
      have haside := hasides e he
      cases e with
      | publish => simp [Effect.IsAside, Effect.isPush] at haside
      | _ => rfl
    simpa [hnone, List.filterMap_map, Function.comp_def, Effect.target?]
      using nodup_targets sorted t
  · have hmem : uri ∈ sorted.targets t :=
      mem_targets.2 (.inr (.inl (hkeep.published ▸ (hrecord uri).2 hbefore)))
    refine ⟨sorted.versionOf uri, List.mem_append_right _ (List.mem_map.2 ⟨uri, hmem, ?_⟩)⟩
    rw [hgone]

/-- A compiler that finds an error at first and nothing later. -/
def forgetfulEnvironment : Environment where
  files := .empty []
  engines := preparedEngines
    [{ outcome := .ok { Program.empty with
        findings := [{ severity := .error, message := "wrong", location := some ⟨"u", 0, 1⟩ }] } },
     { outcome := .ok Program.empty }] none
  reporter := "compiler"

/-- A document is opened and published, and then closed and evicted. -/
def evictedDealings : Dealings Unit :=
  performAll forgetfulEnvironment (fun _ k => .ok () k) { recipient := () }
    [.mutate fun s => .ok (s.track "u" (.str "toy") none "text"), .validateAll,
      .mutate (·.close "u"), .mutate fun s => .ok (s.evict ["u"]).1]

/-- What was shown for an evicted document is taken back. -/
theorem lastShown_evicted_document :
    (evictedDealings.perform (fun _ k => .ok () k) (validateAll forgetfulEnvironment)).1 = .ok () ∧
      lastShown "u" evictedDealings.heard ≠ [] ∧
      lastShown "u" (evictedDealings.perform (fun _ k => .ok () k)
        (validateAll forgetfulEnvironment)).2.heard = [] := by
  have hok : (evictedDealings.perform (fun _ k => .ok () k)
      (validateAll forgetfulEnvironment)).1 = .ok () := by cbv
  obtain ⟨program, t, _, hprogram, ht, hshown, -⟩ :=
    lastShown_eq_of_validateAll forgetfulEnvironment (fun _ k => .ok () k) () _
      (rfl : evictedDealings = _) (Prod.ext hok rfl)
  have hprogram' : ((compile forgetfulEnvironment).run evictedDealings.workspace).result
      = .ok Program.empty := by cbv
  obtain rfl : program = Program.empty := Except.ok.inj (hprogram.symm.trans hprogram')
  have ht' : ((diagnosticsByUri forgetfulEnvironment Program.empty).run
      ((compile forgetfulEnvironment).run evictedDealings.workspace).state).result
      = .ok .empty := by cbv
  obtain rfl : t = .empty := Except.ok.inj (ht.symm.trans ht')
  exact ⟨hok, by decide +kernel, hshown "u"⟩

end Dealings

end LanguageServer
