import LanguageServer.Proofs.Session.Changing
import LanguageServer.Proofs.Session.Opening
import LanguageServer.Proofs.Session.Retention
import LanguageServer.Proofs.Workspace.Presenting

/-!
# Changes that are announced

After a change the diagnostics of all documents are published, each with the version of its
document.  The session hears all of it or stops at the first version that the protocol
cannot express.  So a change is announced for every document, and for each once, exactly if
all documents have versions that the protocol can express and what is found can be shown.

Versions come to a document when it is opened, and then they can be expressed, or with a
change, which may name any whole number.  As long as changes name versions that can be
expressed, all documents have such versions.

## Main definitions

* `DocumentStore.VersionsFit` — the protocol can express the versions of all documents.
* `publishedFor` — what messages publish for a document.
* `Session.Measured` — the sessions in which changes named versions that can be expressed.

## Main statements

* `Session.Unhindered.announces` — when a change is announced, and what is then published.
* `Session.Measured.versionsFit` — the versions in sessions whose changes name such versions.
-/

namespace LanguageServer

open Workspace

/-! ## Versions that can be expressed -/

/-- The protocol can express a version, if there is one. -/
def Params.fits (version : Option Int) : Bool := version.all isVersion

namespace DocumentStore

/-- The protocol can express the versions of all tracked documents. -/
def VersionsFit (s : DocumentStore) : Prop :=
  ∀ uri d, s.find? uri = some d → Params.fits d.version = true

variable {s s' : DocumentStore} {uri : String}

theorem versionsFit_empty : empty.VersionsFit := fun _ _ hd => nomatch hd

theorem VersionsFit.insert (h : s.VersionsFit) {d : Document} (hd : Params.fits d.version = true)
    (hdocuments : s'.documents = s.documents.insert uri d) : s'.VersionsFit := by
  intro other d' hd'
  unfold find? at hd'
  rw [hdocuments, Table.find?_insert] at hd'
  split at hd'
  · obtain rfl := Option.some.inj hd'
    exact hd
  · exact h other d' hd'

theorem VersionsFit.track (h : s.VersionsFit) (uri : String) (language : Json) {version : Option Int}
    (hfits : Params.fits version = true) (content : String) :
    (s.track uri language version content).VersionsFit := h.insert hfits rfl

/-- A version that is kept can be expressed, and so can one that takes its place. -/
theorem fits_nextVersion {current new : Option Int} (hcurrent : Params.fits current = true)
    (hnew : Params.fits new = true) : Params.fits (nextVersion current new) = true := by
  unfold nextVersion
  split
  · exact hcurrent
  · exact hnew
  · split
    · exact hcurrent
    · exact hnew

theorem VersionsFit.applyEdits (h : s.VersionsFit) {version : Option Int}
    (hfits : Params.fits version = true) {edits : List Edit}
    (hedits : s.applyEdits uri version edits = .ok s') : s'.VersionsFit := by
  obtain ⟨d, content, hd, -, rfl⟩ := applyEdits_eq_ok hedits
  exact h.insert (fits_nextVersion (h uri d hd) hfits) rfl

theorem VersionsFit.close (h : s.VersionsFit) (hclose : s.close uri = .ok s') : s'.VersionsFit := by
  obtain ⟨-, rfl⟩ := close_eq_ok hclose
  exact h

theorem VersionsFit.evict (h : s.VersionsFit) (uris : List String) : (s.evict uris).1.VersionsFit := by
  intro other d hd
  unfold find? at hd
  rw [documents_evict, Table.find?_restrict] at hd
  split at hd
  · exact h other d hd
  · cases hd

end DocumentStore

theorem Params.fits_of_opened? {params : Json} {d : Params.Opened}
    (h : Params.opened? params = some d) : Params.fits (some d.version) = true := by
  simp only [opened?, Option.bind_eq_bind, Option.bind_eq_some_iff, Option.pure_def,
    Option.some.injEq] at h
  obtain ⟨t, -, v, -, language, hlanguage, w, -, version, hversion, name, -, text, -, rfl⟩ := h
  simpa [fits] using (Option.filter_eq_some_iff.1 hversion).2

/-! ## What is published for a document -/

/-- What messages publish for a document. -/
def publishedFor (uri : String) (l : List Outbound) : List Outbound :=
  l.filter fun m => (m.shown? uri).isSome

theorem publishedFor_append (uri : String) (l l' : List Outbound) :
    publishedFor uri (l ++ l') = publishedFor uri l ++ publishedFor uri l' := List.filter_append ..

theorem publishedFor_of_silent {uri : String} {l : List Outbound}
    (h : ∀ m ∈ l, m.isPublication = false) : publishedFor uri l = [] := by
  refine List.filter_eq_nil_iff.2 fun m hm => ?_
  have hsilent := h m hm
  cases m with
  | publish => cases hsilent
  | _ => simp [Outbound.shown?]

/-- Of publications for different documents, one is for a document among them. -/
theorem publishedFor_map {targets : List String} (hnodup : targets.Nodup) {uri : String}
    (hmem : uri ∈ targets) (version : String → Option Int)
    (diagnostics : String → List Diagnostic) :
    publishedFor uri (targets.map fun target =>
      Outbound.publish target (version target) (diagnostics target)) =
        [.publish uri (version uri) (diagnostics uri)] := by
  have hfilter : targets.filter (· == uri) = [uri] := by
    rw [List.filter_beq, List.count_eq_one_of_mem hnodup hmem]
    rfl
  unfold publishedFor
  rw [List.filter_map]
  have hsame : (fun m : Outbound => (m.shown? uri).isSome) ∘ (fun target =>
      Outbound.publish target (version target) (diagnostics target)) = (· == uri) := by
    funext target
    by_cases h : target = uri <;> simp [Outbound.shown?, h]
  rw [hsame, hfilter]
  rfl

theorem Effect.IsAside.not_isRefused {e : Effect} (h : e.IsAside) : e.isRefused = false := by
  cases e <;> first | rfl | cases h

/-! ## Changes -/

theorem Changes.exists_applyEdits {params : Json} {s s' : DocumentStore} (h : Changes params s s') :
    ∃ uri version changes, Params.changed params = .ok (.str uri, version, changes) ∧
      s.applyEdits uri version (changes.filterMap ContentChange.edit?) = .ok s' := by
  obtain ⟨uri, version, edits, d, content, hasks, hd, hedits, hstore⟩ := h
  obtain ⟨changes, hchanged, rfl⟩ := Params.exists_changed_iff.2 hasks
  exact ⟨uri, version, changes, hchanged,
    DocumentStore.applyEdits_eq_ok_iff.2 ⟨d, content, hd, hedits, hstore⟩⟩

/-- Parameters ask for one change only. -/
theorem Changes.unique {params : Json} {s s' s'' : DocumentStore} (h : Changes params s s')
    (h' : Changes params s s'') : s' = s'' := by
  obtain ⟨uri, version, changes, hchanged, hedits⟩ := h.exists_applyEdits
  obtain ⟨uri', version', changes', hchanged', hedits'⟩ := h'.exists_applyEdits
  obtain ⟨rfl, rfl, rfl⟩ : uri = uri' ∧ version = version' ∧ changes = changes' := by
    simpa using hchanged.symm.trans hchanged'
  exact Except.ok.inj (hedits.symm.trans hedits')

theorem Changes.isFormed {params : Json} {s s' : DocumentStore} (h : Changes params s s')
    (hformed : s.IsFormed) : s'.IsFormed := by
  obtain ⟨uri, version, changes, -, hedits⟩ := h.exists_applyEdits
  exact hformed.applyEdits hedits

/-! ## Actions that leave the documents -/

namespace Workspace

/-- What leaves the documents keeps every property of them. -/
theorem LeavesDocuments.steady {α : Type} {a : Action Workspace α} (ha : LeavesDocuments a)
    (P : DocumentStore → Prop) : a.Steady (fun _ => True) fun ws => P ws.store := by
  intro ws h
  obtain ⟨hstops, hend⟩ := ha ws.store ws rfl
  exact ⟨fun entry hentry htrue => (congrArg P (hstops entry hentry htrue)).mpr h,
    (congrArg P hend).mpr h⟩

theorem leavesDocuments_validate (env : Environment) (uri : String) :
    LeavesDocuments (validate env uri) :=
  fun _ => .bind .state fun _ => .bind (.ofExcept _ _) fun _ =>
    .bind ((discreet_compile env).leavesDocuments _) fun _ =>
      .bind ((discreet_diagnosticsByUri env _).leavesDocuments _) fun _ =>
        publish_steady (fun _ _ h => h) _ _ _

end Workspace

namespace Session

open Serving

variable {env : Environment} {id : ServerId} {budget : Nat} {stopped : Bool} {sent : List Outbound}

/-! ## Versions that changes name -/

/-- Whether something received, if it changes a document, names no version that the protocol cannot
express. -/
def measures : Received → Bool
  | .message v =>
    methodOf? v != some Method.didChange.name ||
      match Params.changed (paramsOf v) with
      | .ok (_, version, _) => Params.fits version
      | .error _ => true
  | _ => true

/-- What a message asks of the compiler keeps the versions expressible, if it names such versions.
-/
theorem deed_versionsFit {m : Method} {params : Json} {a : Action Workspace Json}
    (ha : deed? (.ofCompiler env id) m params = some a)
    (hfits : m = .didChange → ∀ uri version changes,
      Params.changed params = .ok (uri, version, changes) → Params.fits version = true) :
    a.Steady (fun _ => True) fun ws => ws.store.VersionsFit := by
  have hmapped {α : Type} {f : α → Json} {a : Action Workspace α}
      (ha : a.Steady (fun _ => True) fun ws => ws.store.VersionsFit) :
      Action.Steady (fun _ => True) (fun ws => ws.store.VersionsFit)
        (do return f (← a) : Action Workspace Json) := .bind ha fun _ => .pure _
  cases isDeed_of_deed? ha with
  | initialised => exact hmapped (f := fun _ : Unit => Json.null) (.pure ())
  | settings =>
    exact hmapped (f := fun _ : Unit => Json.null) ((leavesDocuments_changeSettings _).steady _)
  | opened hd =>
    refine hmapped (f := fun _ : Unit => Json.null) (.bind (.update fun ws h => ?_) fun _ =>
      (leavesDocuments_validate env _).steady _)
    exact h.track _ _ (Params.fits_of_opened? hd) _
  | @changed uri version changes hchanged =>
    refine hmapped (f := fun _ : Unit => Json.null) (.bind (requireValue_steady _ _ uri)
      fun target => .state_bind fun ws h => ?_)
    cases hedits : ws.store.applyEdits target version (changes.filterMap ContentChange.edit?) with
    | error e => exact .weaken (.stop _) fun ws' heq => heq ▸ h
    | ok store =>
      exact .andThen (J := fun ws => ws.store.VersionsFit)
        (.update fun _ _ => h.applyEdits (hfits rfl _ _ _ hchanged) hedits)
        (fun _ => (leavesDocuments_validateAll env).steady _) fun _ h => h
  | closed _ =>
    exact hmapped (f := fun _ : Unit => Json.null) (closeDocument_steady (fun _ _ h => h)
      (fun _ garbage h => h.evict garbage) (fun _ _ _ hclose h => h.close hclose) _)
  | definition _ =>
    exact hmapped ((discreet_query env reads_definition _ _).leavesDocuments.steady _)
  | highlights _ =>
    exact hmapped ((discreet_query env reads_highlights _ _).leavesDocuments.steady _)
  | references _ =>
    exact hmapped ((discreet_query env reads_references _ _).leavesDocuments.steady _)

/-- Whatever is received keeps the versions expressible, unless it is a change that names another
version. -/
theorem versionsFit_step {s s' : Session Workspace} {r : Received} (hmeasures : measures r = true)
    (hstep : step (.ofCompiler env id) (.arrival r) s = .ok () s') (h : s.host.store.VersionsFit) :
    s'.host.store.VersionsFit := by
  cases hmethod : eventMethod? (.arrival r) with
  | none =>
    exact step_unhandled (isLasting_host fun ws => ws.store.VersionsFit).toIsAmbient (fun _ _ h => h)
      hmethod hstep h
  | some method =>
    obtain ⟨v, hr, hv, hprocess⟩ := step_handled (.ofCompiler env id) hmethod
    obtain rfl : r = .message v := by injection hr
    rw [hprocess] at hstep
    obtain ⟨x, t, hdispatch, rfl, -⟩ := process_eq_ok hstep
    have hkept : Preserves (fun s : Session Workspace => s.host.store.VersionsFit)
        (dispatch (.ofCompiler env id) method (paramsOf v) (v.field? "id").isSome) := by
      refine dispatch_preserves_of_handle _ (fun m hname => ?_) _
      refine handle_preserves_of_deed (isLasting_host fun ws => ws.store.VersionsFit)
        (.ofCompiler env id) (fun a ha => ?_) fun root folders options =>
          perform_preserves_host (J := fun ws : Workspace => ws.store.VersionsFit)
            (prepare_steady (fun _ _ h => h) (fun _ _ h => h) id root folders options)
      refine perform_preserves_host (deed_versionsFit ha ?_)
      rintro rfl uri version changes hchanged
      simpa [measures, hv, name_of_ofName? hname, hchanged] using hmeasures
    have hleft := hkept (s.begun method (paramsOf v) (v.field? "id").isSome) h
    rw [hdispatch] at hleft
    exact hleft

/-- The sessions that can come about by what clients send if changes name versions that the protocol
can express. -/
inductive Measured (env : Environment) (id : ServerId) : Session Workspace → Prop
  | start : Measured env id { host := .empty }
  | step {s s' : Session Workspace} {r : Received} (h : Measured env id s)
      (hmeasures : measures r = true)
      (hstep : Session.step (.ofCompiler env id) (.arrival r) s.cleared = .ok () s') :
      Measured env id s'

/-- As long as changes name versions that the protocol can express, all documents have such
versions. -/
theorem Measured.versionsFit {s : Session Workspace} (h : Measured env id s) :
    s.host.store.VersionsFit := by
  induction h with
  | start => exact DocumentStore.versionsFit_empty
  | @step s s' r _ hmeasures hstep ih =>
    exact versionsFit_step (s := s.cleared) hmeasures hstep ih

/-! ## What a change publishes -/

/-- A message that changes the documents has the diagnostics of the changed documents published. -/
theorem exists_deed_of_changes {params : Json} {ws : Workspace} {store : DocumentStore}
    (h : Changes params ws.store store) :
    ∃ a, deed? (.ofCompiler env id) .didChange params = some a ∧
      a.run ws = (do validateAll env; return Json.null : Action Workspace Json).run
        (ws.holding store) := by
  obtain ⟨uri, version, changes, hchanged, hedits⟩ := h.exists_applyEdits
  refine ⟨_, by simp only [deed?, hchanged]; rfl, ?_⟩
  have hrun : (changeDocument env (.str uri) version changes).run ws =
      (validateAll env).run (ws.holding store) := by
    rw [run_changeDocument, hedits]
    rfl
  rw [Action.run_bind, show ((Capabilities.ofCompiler env id).documentChanged (.str uri) version
    changes).run ws = _ from hrun, Action.run_bind]

/-- Publishing the diagnostics of all documents succeeds and is heard in full exactly if all
documents have versions that can be expressed and what is found can be shown. -/
theorem isHeard_validateAll_iff {ws : Workspace} (hformed : ws.store.IsFormed) :
    ((∃ u, ((validateAll env).run ws).result = .ok u) ∧
        ∀ e ∈ ((validateAll env).run ws).said.map (·.1), e.isRefused = false) ↔
      ws.store.VersionsFit ∧ ws.IsPresentable env := by
  rw [exists_validateAll_iff, and_comm, and_congr_left_iff]
  intro hpresentable
  obtain ⟨asides, targets, t, hsaid, hasides, -, htargets, -⟩ :=
    said_validateAll_of_isPresentable hformed hpresentable
  rw [hsaid]
  have hrefused (uri : String) : (Effect.publish uri (ws.versionOf uri) (diagnosticsOf t uri)).isRefused =
      !Params.fits (ws.versionOf uri) := by
    simp only [Effect.isRefused, Params.fits]
    cases ws.versionOf uri <;> simp
  constructor
  · intro hheard uri d hd
    have hspoken := hheard _ (List.mem_append_right _ (List.mem_map_of_mem (htargets uri d hd)))
    rw [hrefused, versionOf, hd] at hspoken
    simpa using hspoken
  · intro hfits e he
    rcases List.mem_append.1 he with he | he
    · exact (hasides e he).not_isRefused
    · obtain ⟨uri, -, rfl⟩ := List.mem_map.1 he
      rw [hrefused, versionOf]
      cases hd : ws.store.find? uri with
      | none => rfl
      | some d => simpa using hfits uri d hd

/-- A message that changes a document, in any initialised session that can come about without a
document being opened in vain.  If the documents change as its parameters ask for, then it is
handled without error exactly if the protocol can express the versions of all documents, and a
compilation of the changed documents does not falter.  Then the diagnostics of each document are
published once, as a compilation yields them, with the version of the document. -/
theorem Unhindered.announces {files : FileSystem} {reporter : String} {s : Session Workspace}
    (h : Unhindered (Toy.environment files budget reporter) id stopped sent s) {v : Json}
    (hv : handled? s.cleared v = some .didChange) {store : DocumentStore}
    (hchanges : Changes (paramsOf v) s.host.store store) :
    ∃ s', Session.step (.ofCompiler (Toy.environment files budget reporter) id)
        (.arrival (.message v)) s.cleared = .ok () s' ∧ s'.host.store = store ∧
      (∃ stopped', Unhindered (Toy.environment files budget reporter) id stopped' (sent ++ s'.outbox) s') ∧
      (succeeds (.ofCompiler (Toy.environment files budget reporter) id) s.cleared v = true ↔
        store.VersionsFit ∧ ¬ Falters (Toy.environment files budget reporter) (s.host.holding store)) ∧
      (Measured (Toy.environment files budget reporter) id s → measures (.message v) = true →
        store.VersionsFit) ∧
      (succeeds (.ofCompiler (Toy.environment files budget reporter) id) s.cleared v = true →
        ∀ uri d, store.find? uri = some d → ∃ diagnostics,
          ((compiledDiagnostics (Toy.environment files budget reporter) uri).run
            (s.host.holding store)).result = .ok diagnostics ∧
          publishedFor uri s'.outbox = [.publish uri d.version diagnostics]) := by
  have henv : (Toy.environment files budget reporter).IsToy budget := fun _ => rfl
  generalize Toy.environment files budget reporter = env at h henv ⊢
  have hheld := h.reached.isHeld henv
  have hworking : s.cleared.failing = 0 := hheld.working
  have hidle : s.cleared.IsIdle := ⟨hheld.quiet.dispatching, hheld.quiet.deferred⟩
  obtain ⟨s', hstep⟩ := exists_step env id hworking hidle v
  obtain ⟨hl, hmethod⟩ := handled?_eq_some hv
  have hstore : s'.host.store = store := by
    rcases changes_of_step hl hmethod hstep with hchanges' | ⟨hnone, -⟩
    · exact hchanges'.unique hchanges
    · exact absurd hchanges (hnone store)
  -- A change opens nothing, so the changed documents have names too.
  have hnext := h.step (by simp [show s.lifecycle = _ from hl]) (by simp [opensInVain, hv]) hstep
  have hformed : (s.host.holding store).store.IsFormed := hchanges.isFormed hheld.kept.formed
  have hnames : (s.host.holding store).TracksOnly IsNameable := fun uri huri =>
    hnext.nameable henv uri (hstore ▸ huri)
  obtain ⟨a, ha, hrun⟩ : ∃ a, deed? (.ofCompiler env id) .didChange (paramsOf v) = some a ∧
      a.run s.host = _ := exists_deed_of_changes hchanges
  rw [Action.run_bind_pure _ fun _ => Json.null] at hrun
  have hsucceeds : succeeds (.ofCompiler env id) s.cleared v = true ↔
      store.VersionsFit ∧ ¬ (s.host.holding store).Falters env := by
    rw [succeeds_iff hworking hv rfl ha, ← isPresentable_iff_not_falters hformed hnames,
      show a.run s.cleared.host = _ from hrun]
    refine Iff.trans (and_congr_left fun _ => ?_) (isHeard_validateAll_iff hformed)
    cases ((validateAll env).run (s.host.holding store)).result <;> simp [Except.map]
  refine ⟨s', hstep, hstore, ⟨_, hnext⟩, hsucceeds, fun hmeasured hmeasures =>
    hstore ▸ (hmeasured.step hmeasures hstep).versionsFit, fun hok uri d hd => ?_⟩
  have hpresentable := (isPresentable_iff_not_falters hformed hnames).2 (hsucceeds.1 hok).2
  obtain ⟨asides, targets, t, hsaid, hasides, hnodup, htargets, hcompiled⟩ :=
    said_validateAll_of_isPresentable hformed hpresentable
  obtain ⟨a', x, front, ha', -, -, hsent, hfront⟩ :=
    outbox_of_succeeds hworking hidle hv rfl hstep hok
  obtain rfl := Option.some.inj (ha.symm.trans ha')
  rw [show a.run s.cleared.host = _ from hrun, hsaid, List.filterMap_append,
    filterMap_publication?_of_aside hasides, List.nil_append, List.filterMap_map] at hsent
  have hversion : (s.host.holding store).versionOf uri = d.version := by
    simp only [versionOf, show (s.host.holding store).store.find? uri = some d from hd]
    rfl
  refine ⟨_, hcompiled uri, ?_⟩
  rw [hsent, publishedFor_append, publishedFor_of_silent (l := s.cleared.outbox ++ front) hfront,
    ← hversion]
  refine Eq.trans (congrArg (publishedFor uri) ?_)
    (publishedFor_map hnodup (htargets uri d hd) (s.host.holding store).versionOf (diagnosticsOf t))
  exact congrFun List.filterMap_eq_map' targets

/-- Two documents, and one of them is about to be changed. -/
def twoDocuments : List Json := [requestOf 1 .initialise (.obj []), opening "u" "", opening "w" "f;"]

/-- A change of one document is announced for this document and for another one, which has a
mistake. -/
theorem Unhindered.announces_twoDocuments :
    ∃ sent s s', Unhindered loneEnvironment ⟨"toy", none⟩ false sent s ∧
      Session.step loneCapabilities (.arrival (.message twofoldChange)) s.cleared = .ok () s' ∧
      Changes (paramsOf twofoldChange) s.host.store s'.host.store ∧ s'.host.store.VersionsFit ∧
      (∃ diagnostics, publishedFor "u" s'.outbox = [.publish "u" (some 2) diagnostics]) ∧
      ∃ diagnostics, publishedFor "w" s'.outbox = [.publish "w" (some 1) diagnostics] := by
  have hreached : Unhindered loneEnvironment ⟨"toy", none⟩
      (stopsAll loneCapabilities _ false twoDocuments) _
      (Session.afterAll loneCapabilities { host := .empty } twoDocuments) :=
    Unhindered.start.afterAll (by decide +kernel) (by decide +kernel)
  have hcalm : stopsAll loneCapabilities { host := .empty } false twoDocuments = false := by
    decide +kernel
  rw [hcalm] at hreached
  obtain ⟨s, hs⟩ : ∃ s, s = Session.afterAll loneCapabilities { host := .empty } twoDocuments :=
    ⟨_, rfl⟩
  obtain ⟨s', hs'⟩ : ∃ s', s' = hearing s twofoldChange := ⟨_, rfl⟩
  have hv : handled? s.cleared twofoldChange = some .didChange := by
    subst hs
    decide +kernel
  have hstep : Session.step loneCapabilities (.arrival (.message twofoldChange)) s.cleared =
      .ok () s' := by
    subst hs hs'
    exact step_of_isOk (by decide +kernel)
  have hsucceeds : succeeds loneCapabilities s.cleared twofoldChange = true := by
    subst hs
    decide +kernel
  have hbefore : (s.host.store.find? "u").map (·.version) = some (some 1) := by
    subst hs
    decide +kernel
  have hchanged : (s'.host.store.find? "u").map (·.version) = some (some 2) := by
    subst hs hs'
    decide +kernel
  have hother : (s'.host.store.find? "w").map (·.version) = some (some 1) := by
    subst hs hs'
    decide +kernel
  rw [← hs] at hreached
  obtain ⟨hl, hmethod⟩ := handled?_eq_some hv
  have hchanges := (changes_of_step hl hmethod hstep).resolve_right fun hkept => by
    rw [hkept.2, show s.cleared.host.store = s.host.store from rfl, hbefore] at hchanged
    cases hchanged
  obtain ⟨s'', hstep', -, -, hannounced, -, hpublished⟩ := hreached.announces hv hchanges
  obtain rfl : s'' = s' := by injection hstep'.symm.trans hstep
  obtain ⟨d, hd, hversion⟩ := Option.map_eq_some_iff.1 hchanged
  obtain ⟨d', hd', hversion'⟩ := Option.map_eq_some_iff.1 hother
  obtain ⟨diagnostics, -, hfor⟩ := hpublished hsucceeds "u" d hd
  obtain ⟨diagnostics', -, hfor'⟩ := hpublished hsucceeds "w" d' hd'
  exact ⟨_, s, s'', hreached, hstep, hchanges, (hannounced.1 hsucceeds).1,
    ⟨diagnostics, hversion ▸ hfor⟩, ⟨diagnostics', hversion' ▸ hfor'⟩⟩

end Session

end LanguageServer
