import LanguageServer.Proofs.Session.Refusal

/-!
# Changes as a whole

A message that changes a document changes it as a whole or not at all, from its JSON to the
store.  It does if its parameters name a tracked document and all content changes are well
formed and fit, one after the other; whatever fails afterwards, while compiling or
publishing, takes nothing back.

## Main definitions

* `Params.ReadsAs`, `Params.AsksFor` — what is well formed, and what it asks for.
* `Changes` — the documents before and after a change as a whole.

## Main statements

* `Params.exists_changed_iff` — parameters are read exactly if they are well formed.
* `Session.Reached.changes_or_keeps` — a change is all or nothing, and a refusal is nothing.
-/

namespace LanguageServer

open Workspace

/-! ## What parameters ask for -/

namespace Params

/-- A content change is well formed and asks for an edit: a text alone replaces all, and with a range
what is in it. -/
inductive ReadsAs (v : Json) : Edit → Prop
  | whole {text : String} (htext : v.field? "text" = some (.str text))
      (hrange : v.fieldOrNull "range" = .null) : ReadsAs v (.replace text)
  | part {text : String} {range : Range} (htext : v.field? "text" = some (.str text))
      (hrange : range? (v.fieldOrNull "range") = some range) : ReadsAs v (.splice range text)

/-- The parameters of a change are well formed, and ask for edits of a document, with a version if they
name one. -/
def AsksFor (params : Json) (uri : String) (version : Option Int) (edits : List Edit) : Prop :=
  ∃ d items, params.field? "textDocument" = some d ∧ d.field? "uri" = some (.str uri) ∧
    d.fieldOrNull "version" = (version.map .int).getD .null ∧
    params.field? "contentChanges" = some (.arr items) ∧ List.Forall₂ ReadsAs items edits

theorem exists_of_bind_eq_ok {ε α β : Type} {x : Except ε α} {f : α → Except ε β} {b : β}
    (h : (x >>= f) = .ok b) : ∃ a, x = .ok a ∧ f a = .ok b := by
  cases x with
  | error e => cases h
  | ok a => exact ⟨a, rfl, h⟩

theorem readsAs_of_contentChange {v : Json} {c : ContentChange} (h : contentChange v = .ok c) :
    ∃ e, c.edit? = some e ∧ ReadsAs v e := by
  unfold contentChange at h
  split at h
  · next text htext =>
    split at h
    · next hrange =>
      obtain rfl := Except.ok.inj h
      exact ⟨_, rfl, .whole htext hrange⟩
    · next r _ =>
      cases hread : range? (v.fieldOrNull "range") with
      | none => simp [hread] at h
      | some range =>
        simp only [hread] at h
        obtain rfl := Except.ok.inj h
        exact ⟨_, rfl, .part htext hread⟩
  · cases h

theorem ReadsAs.exists_contentChange {v : Json} {e : Edit} (h : ReadsAs v e) :
    ∃ c, contentChange v = .ok c ∧ c.edit? = some e := by
  unfold contentChange
  cases h with
  | @whole text htext hrange => exact ⟨.full text, by simp only [htext, hrange], rfl⟩
  | @part text range htext hrange =>
    refine ⟨.part range text, ?_, rfl⟩
    simp only [htext]
    split
    · next hnull =>
      rw [hnull] at hrange
      cases hrange
    · simp only [hrange]

/-- Content changes are read exactly if all are well formed. -/
theorem exists_mapM_contentChange_iff {items : List Json} {edits : List Edit} :
    (∃ changes, items.mapM contentChange = .ok changes ∧
        changes.filterMap ContentChange.edit? = edits) ↔ List.Forall₂ ReadsAs items edits := by
  induction items generalizing edits with
  | nil => simp [pure, Except.pure, eq_comm]
  | cons v rest ih =>
    rw [List.forall₂_cons_left_iff]
    constructor
    · rintro ⟨changes, hchanges, rfl⟩
      rw [List.mapM_cons] at hchanges
      obtain ⟨c, hc, hchanges⟩ := exists_of_bind_eq_ok hchanges
      obtain ⟨others, hothers, hchanges⟩ := exists_of_bind_eq_ok hchanges
      obtain rfl := Except.ok.inj hchanges
      obtain ⟨e, he, hreads⟩ := readsAs_of_contentChange hc
      exact ⟨e, _, hreads, ih.1 ⟨others, hothers, rfl⟩, List.filterMap_cons_some he⟩
    · rintro ⟨e, others, hreads, hothers, rfl⟩
      obtain ⟨c, hc, he⟩ := hreads.exists_contentChange
      obtain ⟨changes, hchanges, rfl⟩ := ih.2 hothers
      exact ⟨c :: changes, by rw [List.mapM_cons, hc, hchanges]; rfl, List.filterMap_cons_some he⟩

/-- An array without content changes asks for no edits; nothing but an array is well formed. -/
theorem exists_contentChanges_iff {v : Json} {edits : List Edit} :
    (∃ changes, contentChanges v = .ok changes ∧
        changes.filterMap ContentChange.edit? = edits) ↔
      ∃ items, v = .arr items ∧ List.Forall₂ ReadsAs items edits := by
  cases v with
  | arr items =>
    simp only [Json.arr.injEq, exists_eq_left', ← exists_mapM_contentChange_iff]
    cases items with
    | nil =>
      simp only [contentChanges, Except.ok.injEq, exists_eq_left', List.mapM_nil, pure, Except.pure]
      rfl
    | cons v rest => rfl
  | _ => simp [contentChanges]

theorem changeMember_eq_ok_iff {key : String} {v w : Json} :
    changeMember key v = .ok w ↔ v.field? key = some w := by
  cases v with
  | obj members =>
    simp only [changeMember, Json.field?]
    cases Table.findIn key members <;> simp
  | _ => simp [changeMember, Json.field?]

theorem changeVersion_eq_ok_iff {v : Json} {version : Option Int} :
    changeVersion v = .ok version ↔ v = (version.map .int).getD .null := by
  cases v <;> cases version <;> simp [changeVersion]

/-- The parameters of a change to a document are read exactly if they are well formed. -/
theorem exists_changed_iff {params : Json} {uri : String} {version : Option Int} {edits : List Edit} :
    (∃ changes, changed params = .ok (.str uri, version, changes) ∧
        changes.filterMap ContentChange.edit? = edits) ↔ AsksFor params uri version edits := by
  constructor
  · rintro ⟨changes, hchanged, hedits⟩
    obtain ⟨d, hd, hchanged⟩ := exists_of_bind_eq_ok hchanged
    obtain ⟨name, hname, hchanged⟩ := exists_of_bind_eq_ok hchanged
    obtain ⟨items, hitems, hchanged⟩ := exists_of_bind_eq_ok hchanged
    obtain ⟨number, hversion, hchanged⟩ := exists_of_bind_eq_ok hchanged
    obtain ⟨changes', hchanges, hchanged⟩ := exists_of_bind_eq_ok hchanged
    simp only [pure, Except.pure, Except.ok.injEq, Prod.mk.injEq] at hchanged
    obtain ⟨rfl, rfl, rfl⟩ := hchanged
    obtain ⟨l, rfl, hreads⟩ := exists_contentChanges_iff.1 ⟨_, hchanges, hedits⟩
    exact ⟨d, l, changeMember_eq_ok_iff.1 hd, changeMember_eq_ok_iff.1 hname,
      changeVersion_eq_ok_iff.1 hversion, changeMember_eq_ok_iff.1 hitems, hreads⟩
  · rintro ⟨d, items, hd, huri, hversion, hitems, hreads⟩
    obtain ⟨changes, hchanges, hedits⟩ := exists_contentChanges_iff.2 ⟨items, rfl, hreads⟩
    refine ⟨changes, ?_, hedits⟩
    simp only [changed, changeMember_eq_ok_iff.2 hd, changeMember_eq_ok_iff.2 huri,
      changeMember_eq_ok_iff.2 hitems, changeVersion_eq_ok_iff.2 hversion, hchanges, bind,
      Except.bind, pure, Except.pure]

end Params

/-! ## Changing the documents -/

/-- The parameters of a change name a tracked document, and ask for edits that fit one after the other;
with them, the document has their text and the version that the rule gives it, and nothing else is
different. -/
def Changes (params : Json) (s s' : DocumentStore) : Prop :=
  ∃ uri version edits d content, Params.AsksFor params uri version edits ∧ s.find? uri = some d ∧
    applyEdits d.content edits = .ok content ∧
    s' = { s with
      documents := s.documents.insert uri (d.changed version content)
      generation := s.generation + 1 }

theorem DocumentStore.applyEdits_eq_ok_iff {s s' : DocumentStore} {uri : String}
    {version : Option Int} {edits : List Edit} :
    s.applyEdits uri version edits = .ok s' ↔
      ∃ d content, s.find? uri = some d ∧ LanguageServer.applyEdits d.content edits = .ok content ∧
        s' = { s with
          documents := s.documents.insert uri (d.changed version content)
          generation := s.generation + 1 } := by
  refine ⟨applyEdits_eq_ok, ?_⟩
  rintro ⟨d, content, hd, hedits, rfl⟩
  simp only [applyEdits, get_eq_ok_iff.2 hd, hedits, bind, Except.bind, pure, Except.pure]

variable {env : Environment} {id : ServerId} {ws : Workspace}

/-- A change to a document applies its edits and publishes, or it is refused and nothing happens. -/
theorem run_changeDocument (uri : String) (version : Option Int) (changes : List ContentChange) :
    (changeDocument env (.str uri) version changes).run ws =
      match ws.store.applyEdits uri version (changes.filterMap ContentChange.edit?) with
      | .ok store => (validateAll env).run { ws with store }
      | .error e => ⟨[], .error (.refused (.of .invalidParams e.message)), ws⟩ := by
  have hrequire := run_require uri ws
  unfold changeDocument requireValue
  cases hcontains : ws.store.contains uri with
  | false =>
    have hunknown : ws.store.applyEdits uri version (changes.filterMap ContentChange.edit?) =
        .error (.unknown uri) := by
      have hget : ws.store.get uri = .error (.unknown uri) := by
        unfold DocumentStore.get DocumentStore.find?
        rw [(Table.contains_eq_false_iff _ _).1 hcontains]
      simp only [DocumentStore.applyEdits, hget, bind, Except.bind]
    simp only [hcontains] at hrequire
    rw [Action.run_bind_error (Action.run_bind_error hrequire), hunknown]
  | true =>
    simp only [hcontains, if_true] at hrequire
    have hname : (do require uri; return uri : Action Workspace String).run ws = ⟨[], .ok uri, ws⟩ := by
      rw [Action.run_bind_ok hrequire]
      rfl
    rw [Action.run_bind_silent hname, Action.run_bind_silent (Action.run_state ws)]
    cases ws.store.applyEdits uri version (changes.filterMap ContentChange.edit?) with
    | error e => rfl
    | ok store => exact Action.run_bind_silent (Action.run_update _ _)

variable (env ws) in
theorem run_changeDocument_of_not_str {v : Json} (h : ∀ uri, v ≠ .str uri) (version : Option Int)
    (changes : List ContentChange) :
    ∃ f, (changeDocument env v version changes).run ws = ⟨[], .error f, ws⟩ := by
  unfold changeDocument requireValue
  cases v with
  | str uri => exact absurd rfl (h uri)
  | _ => exact ⟨_, rfl⟩

variable (env) in
/-- Wherever a change stops, the documents have changed as its parameters ask for, or they are as they
were, and nothing that could be changed is asked for. -/
theorem changeDocument_changes {params v : Json} {version : Option Int} {changes : List ContentChange}
    (h : Params.changed params = .ok (v, version, changes)) :
    (changeDocument env v version changes).Leads (fun _ => True) (· = ws) fun ws' =>
      Changes params ws.store ws'.store ∨
        (∀ store, ¬ Changes params ws.store store) ∧ ws'.store = ws.store := by
  -- Well-formed parameters are those that were read.
  have hasked {uri : String} {version' : Option Int} {edits : List Edit}
      (hasks : Params.AsksFor params uri version' edits) :
      v = .str uri ∧ version = version' ∧ changes.filterMap ContentChange.edit? = edits := by
    obtain ⟨changes', hchanged, hedits⟩ := Params.exists_changed_iff.2 hasks
    obtain ⟨rfl, rfl, rfl⟩ := by simpa using h.symm.trans hchanged
    exact ⟨rfl, rfl, hedits⟩
  rintro ws rfl
  by_cases hstr : ∃ uri, v = .str uri
  · obtain ⟨uri, rfl⟩ := hstr
    rw [run_changeDocument]
    cases happly : ws.store.applyEdits uri version (changes.filterMap ContentChange.edit?) with
    | ok store =>
      obtain ⟨d, content, hd, hedits, hstore⟩ := DocumentStore.applyEdits_eq_ok happly
      have hchanges : Changes params ws.store store :=
        ⟨uri, version, _, d, content, Params.exists_changed_iff.1 ⟨changes, h, rfl⟩, hd, hedits, hstore⟩
      obtain ⟨hstops, hend⟩ := leavesDocuments_validateAll env store { ws with store } rfl
      refine ⟨fun entry hentry _ => .inl ?_, .inl ?_⟩
      · rw [show entry.2.store = store from hstops entry hentry trivial]
        exact hchanges
      · rw [show ((validateAll env).run { ws with store }).state.store = store from hend]
        exact hchanges
    | error e =>
      refine ⟨fun entry hentry => absurd hentry List.not_mem_nil, .inr ⟨?_, rfl⟩⟩
      rintro store ⟨uri', version', edits, d, content, hasks, hd, hedits, hstore⟩
      obtain ⟨hsame, rfl, rfl⟩ := hasked hasks
      obtain rfl := Json.str.inj hsame
      rw [DocumentStore.applyEdits_eq_ok_iff.2 ⟨d, content, hd, hedits, hstore⟩] at happly
      cases happly
  · obtain ⟨f, hrun⟩ := run_changeDocument_of_not_str env ws (fun uri heq => hstr ⟨uri, heq⟩) version
      changes
    rw [hrun]
    refine ⟨fun entry hentry => absurd hentry List.not_mem_nil, .inr ⟨?_, rfl⟩⟩
    rintro store ⟨uri, version', edits, d, content, hasks, -⟩
    exact hstr ⟨uri, (hasked hasks).1⟩

namespace Session

open Serving

variable (env id) in
/-- Any message is handled to its end while messages can be sent. -/
theorem exists_step {s : Session Workspace} (hs : s.failing = 0) (hidle : s.IsIdle) (v : Json) :
    ∃ s', step (.ofCompiler env id) (.arrival (.message v)) s = .ok () s' := by
  cases hmethod : methodOf? v with
  | none =>
    rcases receive_unhandled (.ofCompiler env id) hmethod with
      ⟨-, hreceive⟩ | ⟨-, i, e, hreceive⟩
    · exact ⟨s, by rw [show step (.ofCompiler env id) (.arrival (.message v)) = _ from hreceive]; rfl⟩
    · refine ⟨_, (?_ : step _ _ s = .ok () { s with outbox := s.outbox ++ [.failure i e] })⟩
      rw [show step (.ofCompiler env id) (.arrival (.message v)) = _ from hreceive]
      exact ok_of_after (after_send hs)
  | some method =>
    obtain ⟨s', -, -, hreceive, -⟩ :=
      receive_handled (spareChannel_ofCompiler env id) hs hidle hmethod
    exact ⟨s', hreceive⟩

/-- A message that changes a document changes the documents as its parameters ask for, or leaves them as
they were, and then nothing that could be changed is asked for. -/
theorem changes_of_step {s s' : Session Workspace} (hl : s.lifecycle = .initialized) {v : Json}
    (hmethod : methodOf? v = some Method.didChange.name)
    (hstep : step (.ofCompiler env id) (.arrival (.message v)) s = .ok () s') :
    Changes (paramsOf v) s.host.store s'.host.store ∨
      (∀ store, ¬ Changes (paramsOf v) s.host.store store) ∧ s'.host.store = s.host.store := by
  rw [show step (.ofCompiler env id) (.arrival (.message v)) = _ from
    receive_eq_process (.ofCompiler env id) hmethod] at hstep
  obtain ⟨x, t, hdispatch, rfl, hchannel⟩ := process_eq_ok hstep
  show Changes _ _ t.host.store ∨ _ ∧ t.host.store = _
  rw [dispatch_initialised (.ofCompiler env id) (s := s.begun _ _ _) hl rfl] at hdispatch
  cases hchanged : Params.changed (paramsOf v) with
  | error e =>
    -- What is not read is not well formed.
    have hrefuse : (handle (.ofCompiler env id) .didChange (paramsOf v)).after
        (s.begun Method.didChange.name (paramsOf v) (v.field? "id").isSome) =
          (.error (.refused e), s.begun Method.didChange.name (paramsOf v) (v.field? "id").isSome) := by
      unfold handle
      rw [hchanged]
      rfl
    obtain ⟨-, rfl⟩ := Prod.mk.inj (hdispatch.symm.trans hrefuse)
    refine .inr ⟨?_, rfl⟩
    rintro store ⟨uri, version, edits, d, content, hasks, -⟩
    obtain ⟨changes, hread, -⟩ := Params.exists_changed_iff.2 hasks
    cases hchanged.symm.trans hread
  | ok change =>
    obtain ⟨uri, version, changes⟩ := change
    have hperform : (handle (.ofCompiler env id) .didChange (paramsOf v)).after
        (s.begun Method.didChange.name (paramsOf v) (v.field? "id").isSome) =
          (perform (do changeDocument env uri version changes; return Json.null)).after
            (s.begun Method.didChange.name (paramsOf v) (v.field? "id").isSome) := by
      unfold handle
      rw [hchanged]
      exact after_perform_map _ (fun _ => Json.null) _
    have hcases := perform_cases (do changeDocument env uri version changes; return Json.null)
      (s.begun Method.didChange.name (paramsOf v) (v.field? "id").isSome)
    rw [← hperform, hdispatch, Action.run_bind_pure _ fun _ => Json.null] at hcases
    obtain ⟨hstops, hend⟩ := changeDocument_changes env hchanged s.host rfl
    rcases hcases with ⟨-, hhost⟩ | ⟨reason, hreason⟩ | ⟨entry, hmem, -, hhost, -⟩
    · rw [show t.host = _ from hhost]
      exact hend
    · exact absurd hreason (hchannel reason)
    · rw [show t.host = _ from hhost]
      exact hstops entry hmem trivial

/-- Changes are all or nothing.  Any message is handled to its end in an initialised session that can
come about.  If it changes a document, then the documents change as its parameters ask for, or they are
as they were; and they change if the parameters are well formed, name a tracked document, and all edits
fit.  A message that is refused, or answered with invalid parameters, leaves the documents as they
were. -/
theorem Reached.changes_or_keeps {files : FileSystem} {budget : Nat} {reporter : String}
    {stopped : Bool} {sent : List Outbound} {s : Session Workspace}
    (h : Reached (Toy.environment files budget reporter) id stopped sent s)
    (hl : s.lifecycle = .initialized) (v : Json) :
    ∃ s', Session.step (.ofCompiler (Toy.environment files budget reporter) id)
        (.arrival (.message v)) s.cleared = .ok () s' ∧
      (methodOf? v = some Method.didChange.name →
        Changes (paramsOf v) s.host.store s'.host.store ∨
          (∀ store, ¬ Changes (paramsOf v) s.host.store store) ∧ s'.host.store = s.host.store) ∧
      ∀ e, (refusal? (.ofCompiler (Toy.environment files budget reporter) id) s.cleared v = some e ∨
          ∃ i, .failure i e ∈ s'.outbox) →
        e.code = ErrorKind.invalidParams.code → s'.host.store = s.host.store := by
  have henv : (Toy.environment files budget reporter).IsToy budget := fun _ => rfl
  generalize Toy.environment files budget reporter = env at h henv ⊢
  have hheld := h.isHeld henv
  have hidle : s.cleared.IsIdle := ⟨hheld.quiet.dispatching, hheld.quiet.deferred⟩
  obtain ⟨s', hstep⟩ := exists_step env id (s := s.cleared) hheld.working hidle v
  refine ⟨s', hstep, fun hmethod => changes_of_step (s := s.cleared) hl hmethod hstep, ?_⟩
  rintro e (hrefusal | ⟨i, hmem⟩) hcode
  · exact store_of_refusal? (s := s.cleared) hrefusal hstep
  · exact store_of_failure (s := s.cleared) hheld.working rfl hidle hstep hmem hcode

/-- The wire form of a position. -/
def positionJson (line character : Int) : Json :=
  .obj [("line", .int line), ("character", .int character)]

/-- A text is replaced, and then a part that only the new text has. -/
def twofoldChange : Json :=
  notificationOf .didChange (.obj
    [("textDocument", .obj [("uri", .str "u"), ("version", .int 2)]),
      ("contentChanges", .arr
        [.obj [("text", .str "var f = 1;")],
          .obj [("range", .obj [("start", positionJson 0 8), ("end", positionJson 0 9)]),
            ("text", .str "2")]])])

/-- Both parts of a change are applied. -/
theorem Reached.changes_twofoldChange :
    ∃ sent s s', Reached loneEnvironment ⟨"toy", none⟩ false sent s ∧
      Session.step loneCapabilities (.arrival (.message twofoldChange)) s.cleared = .ok () s' ∧
      (s'.host.store.find? "u").map (·.content) = some "var f = 2;" ∧
      Changes (paramsOf twofoldChange) s.host.store s'.host.store := by
  have hreached : Reached loneEnvironment ⟨"toy", none⟩ (stopsAll loneCapabilities _ false
      [requestOf 1 .initialise (.obj []), opening "u" ""]) _ _ :=
    Reached.start.afterAll (by decide +kernel)
  have hcalm : stopsAll loneCapabilities { host := .empty } false
      [requestOf 1 .initialise (.obj []), opening "u" ""] = false := by decide +kernel
  rw [hcalm] at hreached
  obtain ⟨s', hstep, hchanges, -⟩ := hreached.changes_or_keeps (by decide +kernel) twofoldChange
  obtain rfl : _ = s' := by
    injection (step_of_isOk (by decide +kernel)).symm.trans hstep
  refine ⟨_, _, _, hreached, hstep, by decide +kernel, ?_⟩
  refine (hchanges (by decide +kernel)).resolve_right fun hkept => ?_
  exact absurd (congrArg (fun store => (store.find? "u").map (·.content)) hkept.2) (by decide +kernel)

end Session

end LanguageServer
