import LanguageServer.Proofs.Session.Eviction
import LanguageServer.Proofs.Session.Leftovers
import LanguageServer.Proofs.Workspace.Retention

/-!
# Collecting exactly what is not needed

After a document was closed, the tracked documents are those that are open and those closed
ones that an open one leads to, by the imports that a compilation of the documents finds
right before the eviction.  A document that went shows nothing any more.

Compilations must not be stopped, since the collection goes by the latest program; and no
document may have been opened in vain, since a document without a name cannot be compiled.

## Main definitions

* `Session.Unhindered` — the sessions that can come about if no opening fails.

## Main statements

* `Session.Unhindered.nameable` — all documents of such a session have names.
* `Session.Unhindered.retains` — what is tracked after a document was closed.
-/

namespace LanguageServer

open Workspace

namespace Session

open Serving

variable {env : Environment} {id : ServerId} {budget : Nat} {stopped : Bool}
  {sent : List Outbound} {N : String → Prop}

/-! ## Documents that are tracked -/

/-- What a message asks of the compiler makes no documents tracked, unless it opens one. -/
theorem deed_tracksOnly {m : Method} (hm : m ≠ .didOpen) {params : Json} {a : Action Workspace Json}
    (ha : deed? (.ofCompiler env id) m params = some a) :
    a.Steady (fun _ => True) (TracksOnly N) := by
  have hmapped {α : Type} {f : α → Json} {a : Action Workspace α}
      (ha : a.Steady (fun _ => True) (TracksOnly N)) :
      Action.Steady (fun _ => True) (TracksOnly N) (do return f (← a) : Action Workspace Json) :=
    .bind ha fun _ => .pure _
  cases isDeed_of_deed? ha with
  | initialised => exact hmapped (f := fun _ : Unit => Json.null) (.pure ())
  | settings => exact hmapped (f := fun _ : Unit => Json.null) (changeSettings_tracksOnly env _)
  | opened _ => exact absurd rfl hm
  | changed _ =>
    exact hmapped (f := fun _ : Unit => Json.null) (changeDocument_tracksOnly env _ _ _)
  | closed _ => exact hmapped (f := fun _ : Unit => Json.null) (closeDocument_tracksOnly _)
  | definition _ => exact hmapped (discreet_query env reads_definition _ _).tracksOnly
  | highlights _ => exact hmapped (discreet_query env reads_highlights _ _).tracksOnly
  | references _ => exact hmapped (discreet_query env reads_references _ _).tracksOnly

/-- Handling a message makes no documents tracked, unless it opens one. -/
theorem handle_tracksOnly (env : Environment) (id : ServerId) {m : Method} (hm : m ≠ .didOpen)
    (params : Json) :
    Preserves (fun s : Session Workspace => TracksOnly N s.host)
      (handle (.ofCompiler env id) m params) := by
  exact handle_preserves_of_deed (isLasting_host _) (.ofCompiler env id)
    (fun _ ha => perform_preserves_host (deed_tracksOnly hm ha)) fun root folders options =>
      perform_preserves_host
        (prepare_steady (fun _ _ h => h) (fun _ _ h => h) id root folders options)

/-! ## Sessions without hindrance -/

/-- Whether something that is received opens a document and fails. -/
def opensInVain {γ : Type} (caps : Capabilities γ) (s : Session γ) : Received → Bool
  | .message v => handled? s v == some .didOpen && !succeeds caps s v
  | _ => false

/-- The sessions that can come about by what clients send if nothing opens a document in vain, with
whether compiling is stopped in them and with all that was sent. -/
inductive Unhindered (env : Environment) (id : ServerId) :
    Bool → List Outbound → Session Workspace → Prop
  | start : Unhindered env id false [] { host := .empty }
  | step {stopped : Bool} {sent : List Outbound} {s s' : Session Workspace} {r : Received}
      (h : Unhindered env id stopped sent s) (hexited : s.lifecycle ≠ .exited)
      (hopens : opensInVain (.ofCompiler env id) s.cleared r = false)
      (hstep : Session.step (.ofCompiler env id) (.arrival r) s.cleared = .ok () s') :
      Unhindered env id (stopsAfter (.ofCompiler env id) s.cleared stopped r) (sent ++ s'.outbox) s'

theorem Unhindered.reached {s : Session Workspace} (h : Unhindered env id stopped sent s) :
    Reached env id stopped sent s := by
  induction h with
  | start => exact .start
  | step _ hexited _ hstep ih => exact ih.step hexited hstep

theorem opensInVain_of_opensWell {γ : Type} {caps : Capabilities γ} {s : Session γ} {v : Json}
    {rest : List Json} (h : opensWell caps s (v :: rest) = true) :
    opensInVain caps s.cleared (.message v) = false := by
  simp only [opensWell, Bool.and_eq_true, Bool.or_eq_true, bne_iff_ne, ne_eq] at h
  rcases h.1 with hother | ⟨hsucceeds, -⟩
  · simp [opensInVain, hother]
  · simp [opensInVain, hsucceeds]

/-- Messages that open no document in vain lead to another session without hindrance. -/
theorem Unhindered.afterAll {s : Session Workspace} (h : Unhindered env id stopped sent s)
    {l : List Json} (hgoes : goesOn (.ofCompiler env id) s l = true)
    (hwell : opensWell (.ofCompiler env id) s l = true) :
    Unhindered env id (stopsAll (.ofCompiler env id) s stopped l)
      (sent ++ sentAll (.ofCompiler env id) s l) (Session.afterAll (.ofCompiler env id) s l) := by
  induction l generalizing s stopped sent with
  | nil => simpa [Session.afterAll, stopsAll, sentAll] using h
  | cons v rest ih =>
    have hopens := opensInVain_of_opensWell hwell
    simp only [goesOn, Bool.and_eq_true, bne_iff_ne, ne_eq] at hgoes
    simp only [opensWell, Bool.and_eq_true] at hwell
    obtain ⟨⟨hexited, hok⟩, hrest⟩ := hgoes
    have hnext := ih (h.step hexited hopens (step_of_isOk hok)) hrest hwell.2
    simpa only [Session.afterAll, stopsAll, sentAll, List.append_assoc, stopsAfter] using hnext

/-- Something that opens no document in vain leaves all documents with names if they had names
before. -/
theorem nameable_step {s s' : Session Workspace} (hformed : s.host.store.IsFormed)
    (hexited : s.lifecycle ≠ .exited) {r : Received}
    (hopens : opensInVain (.ofCompiler env id) s r = false)
    (hstep : step (.ofCompiler env id) (.arrival r) s = .ok () s')
    (h : s.host.TracksOnly IsNameable) : s'.host.TracksOnly IsNameable := by
  cases hmethod : eventMethod? (.arrival r) with
  | none =>
    exact step_unhandled (isLasting_host (TracksOnly IsNameable)).toIsAmbient (fun _ _ h => h) hmethod
      hstep h
  | some method =>
    obtain ⟨v, hr, hv, hprocess⟩ := step_handled (.ofCompiler env id) hmethod
    obtain rfl : r = .message v := by injection hr
    by_cases hopening : handled? s v = some .didOpen
    · -- The opening succeeds, so all documents could be handed to the engine.
      have hsucceeds : succeeds (.ofCompiler env id) s v = true := by
        simpa [opensInVain, hopening] using hopens
      obtain ⟨a, x, ha, hresult, hhost⟩ := host_of_succeeds hopening rfl hstep hsucceeds
      obtain ⟨d, -, rfl⟩ := Option.map_eq_some_iff.1 ha
      obtain ⟨⟨⟩, hopened, -, -, hstate⟩ := Action.run_bind_eq_ok hresult
      rw [hhost.trans hstate]
      exact tracksOnly_openDocument hformed hopened
    · rw [hprocess] at hstep
      obtain ⟨x, t, hdispatch, rfl, -⟩ := process_eq_ok hstep
      suffices hkept : TracksOnly IsNameable ((dispatch (.ofCompiler env id) method (paramsOf v)
          (v.field? "id").isSome).after (s.begun method (paramsOf v) (v.field? "id").isSome)).2.host by
        rw [hdispatch] at hkept
        exact hkept
      rcases exists_dispatch (.ofCompiler env id) method (paramsOf v) (v.field? "id").isSome
        s.lifecycle with ⟨x, -, -, hdropped⟩ | ⟨hadmits, m, hname, hhandled⟩
      · rw [hdropped (s.begun _ _ _) rfl]
        exact h
      · rw [hhandled (s.begun _ _ _) rfl]
        refine handle_tracksOnly env id ?_ (paramsOf v) (s.begun _ _ _) h
        rintro rfl
        have hl : s.lifecycle = .initialized := by
          obtain rfl := name_of_ofName? hname
          cases hl : s.lifecycle with
          | initialized => rfl
          | exited => exact absurd hl hexited
          | uninitialized => exact absurd (hl ▸ hadmits) (by decide)
          | shuttingDown => exact absurd (hl ▸ hadmits) (by decide)
        exact hopening (by simp [handled?, hl, hv, hname])

/-- All documents of a session in which no opening failed have names. -/
theorem Unhindered.nameable (henv : env.IsToy budget) {s : Session Workspace}
    (h : Unhindered env id stopped sent s) : s.host.TracksOnly IsNameable := by
  induction h with
  | start => exact fun uri huri => by cases huri
  | @step stopped sent s s' r h hexited hopens hstep ih =>
    exact nameable_step (s := s.cleared) (h.reached.isHeld henv).kept.formed hexited hopens hstep ih

/-- Garbage collection is exact.  If a message that closes a document is handled without error, then the
documents right before the eviction can be compiled, and those that are tracked afterwards are the open
ones and those closed ones that an open one leads to by the imports that this finds; and the last that
was sent for a document that went is an empty list.  Compiling must not be stopped, and no document was
opened in vain before. -/
theorem Unhindered.retains {files : FileSystem} {reporter : String} {s s' : Session Workspace}
    (h : Unhindered (Toy.environment files budget reporter) id false sent s) {v : Json}
    (hv : handled? s.cleared v = some .didClose)
    (hstep : Session.step (.ofCompiler (Toy.environment files budget reporter) id)
      (.arrival (.message v)) s.cleared = .ok () s')
    (hsucceeds : succeeds (.ofCompiler (Toy.environment files budget reporter) id) s.cleared v = true) :
    ∃ target program, Params.documentUri? (paramsOf v) = some target ∧
      ((compile (Toy.environment files budget reporter)).run (s.host.markClosed target)).result =
        .ok program ∧
      Retains program (s.host.markClosed target) s'.host ∧
      ∀ uri, s.host.store.contains uri = true → s'.host.store.contains uri = false →
        lastSent? uri (sent ++ s'.outbox) = some [] := by
  have henv : (Toy.environment files budget reporter).IsToy budget := fun _ => rfl
  generalize Toy.environment files budget reporter = env at h hstep hsucceeds henv ⊢
  have hheld := h.reached.isHeld henv
  obtain ⟨target, htarget⟩ : ∃ target, Params.documentUri? (paramsOf v) = some target := by
    obtain ⟨a, -, ha, -⟩ := host_of_succeeds hv rfl hstep hsucceeds
    obtain ⟨target, htarget, -⟩ := Option.map_eq_some_iff.1 ha
    exact ⟨target, htarget⟩
  obtain ⟨hclosed, hhost⟩ := closes_of_succeeds hv htarget hstep hsucceeds
  obtain ⟨⟨evicted, hcollected⟩, hstate⟩ := closeDocument_eq_ok hclosed
  have hsettled := (hheld.settled rfl).markClosed henv.isUniform target
  have hnamed : (s.host.markClosed target).TracksOnly IsNameable := fun uri huri =>
    h.nameable henv uri (contains_markClosed s.host target uri ▸ huri)
  have hsize : (s.host.markClosed target).store.size ≠ 0 :=
    DocumentStore.size_ne_zero_of_contains
      ((contains_markClosed s.host target target).trans (contains_of_closeDocument hclosed))
  obtain ⟨uris, sources, hnames⟩ := hnamed.exists_nameDocuments hsettled.formed
  obtain ⟨program, hprogram, hretains⟩ := retains_collectGarbage henv hsettled hnames hsize hcollected
  refine ⟨target, program, htarget, hprogram, ?_, fun uri htracked hgone => ?_⟩
  · rw [hhost.trans hstate]
    exact hretains
  · refine lastSent?_append_of_some ((tracks_step (s := s.cleared) hheld.working hstep
      htracked).resolve_left fun htracked' => ?_) sent
    rw [show s'.host.store.contains uri = true from htracked'] at hgone
    cases hgone

/-- What is imported stays, and what is not goes, when both are closed. -/
theorem Unhindered.retains_closedImports :
    ∃ sent s s' program, Unhindered loneEnvironment ⟨"toy", none⟩ false sent s ∧
      Session.step loneCapabilities (.arrival (.message (closing "w"))) s.cleared = .ok () s' ∧
      s'.host.store.openUris = ["u"] ∧ s'.host.store.toList.map (·.uri) = ["l", "u"] ∧
      Retains program (s.host.markClosed "w") s'.host ∧
      lastSent? "w" (sent ++ s'.outbox) = some [] := by
  have hreached : Unhindered loneEnvironment ⟨"toy", none⟩
      (stopsAll loneCapabilities _ false closedImports) _ _ :=
    Unhindered.start.afterAll (by decide +kernel) (by decide +kernel)
  have hcalm : stopsAll loneCapabilities { host := .empty } false closedImports = false := by
    decide +kernel
  rw [hcalm] at hreached
  obtain ⟨target, program, htarget, -, hretains, hsent⟩ := hreached.retains (v := closing "w")
    (by decide +kernel) (step_of_isOk (by decide +kernel)) (by decide +kernel)
  obtain rfl : target = "w" := Option.some.inj (htarget.symm.trans (by decide +kernel))
  exact ⟨_, _, _, program, hreached, step_of_isOk (by decide +kernel), by decide +kernel,
    by decide +kernel, hretains, hsent "w" (by decide +kernel) (by decide +kernel)⟩

/-- While compiling is stopped, a document may go that an open one has come to import. -/
theorem not_retains_stoppedImports :
    ∃ sent s s', Unhindered loneEnvironment ⟨"toy", none⟩ true sent s ∧
      handled? s.cleared (closing "b") = some .didClose ∧
      Session.step loneCapabilities (.arrival (.message (closing "b"))) s.cleared = .ok () s' ∧
      succeeds loneCapabilities s.cleared (closing "b") = true ∧
      (((compile loneEnvironment).run (s.host.markClosed "b")).result.toOption).isSome = true ∧
      ∀ program, ((compile loneEnvironment).run (s.host.markClosed "b")).result = .ok program →
        ¬ Retains program (s.host.markClosed "b") s'.host := by
  have hreached : Unhindered loneEnvironment ⟨"toy", none⟩
      (stopsAll loneCapabilities _ false stoppedImports) _ _ :=
    Unhindered.start.afterAll (by decide +kernel) (by decide +kernel)
  have hstopped : stopsAll loneCapabilities { host := .empty } false stoppedImports = true := by
    decide +kernel
  rw [hstopped] at hreached
  refine ⟨_, _, _, hreached, by decide +kernel, step_of_isOk (by decide +kernel), by decide +kernel,
    by decide +kernel, fun program hprogram hretains => ?_⟩
  have himports : (((compile loneEnvironment).run ((Session.afterAll loneCapabilities
      { host := .empty } stoppedImports).host.markClosed "b")).result.toOption).map
        (fun program => (importGraph program).importsOf "a") = some ["b"] := by decide +kernel
  rw [show ((compile loneEnvironment).run ((Session.afterAll loneCapabilities { host := .empty }
    stoppedImports).host.markClosed "b")).result = .ok program from hprogram] at himports
  have himport : "b" ∈ (importGraph program).importsOf "a" := by
    rw [show (importGraph program).importsOf "a" = ["b"] from Option.some.inj himports]
    exact List.mem_singleton_self _
  have htracked := (hretains.tracked "b").2 (.inr ⟨by decide +kernel, by decide +kernel, "b",
    by decide +kernel, "a", by decide +kernel, "a", by decide +kernel, .single himport⟩)
  exact absurd htracked (by decide +kernel)

end Session

end LanguageServer
