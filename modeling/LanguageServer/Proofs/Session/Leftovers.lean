import LanguageServer.Proofs.Session.Purity

/-!
# What is left on display

When a document is forgotten, the client is told that it has no diagnostics.  But a change
publishes for every source in which something was found, also for one that the engine only
read from disk; nothing takes that back when the last document goes.  So what is left on
display at the end was, whenever it was published, about a source that is no document.

## Main definitions

* `lastSent?` — what messages last showed for a document.
* `Session.Displayed` — the sessions that can come about, with what a document last showed.

## Main statements

* `Session.Displayed.eq_nil_of_forgotten` — a document that is forgotten shows nothing.
-/

namespace LanguageServer

open Workspace

/-! ## What is shown last -/

/-- The diagnostics that a message shows for a document, if it does. -/
def Outbound.shown? (uri : String) : Outbound → Option (List Diagnostic)
  | .publish target _ diagnostics => if target = uri then some diagnostics else none
  | _ => none

/-- What messages last showed for a document, if they did. -/
def lastSent? (uri : String) (l : List Outbound) : Option (List Diagnostic) :=
  l.reverse.findSome? (Outbound.shown? uri)

theorem lastSent?_append_of_some {uri : String} {l : List Outbound} {diagnostics : List Diagnostic}
    (h : lastSent? uri l = some diagnostics) (before : List Outbound) :
    lastSent? uri (before ++ l) = some diagnostics := by
  unfold lastSent? at h ⊢
  rw [List.reverse_append, List.findSome?_append, h]
  rfl

/-- If all that is published is empty, and something is published for a document, then it shows
nothing. -/
theorem lastSent?_eq_nil {uri : String} {version : Option Int} {l : List Outbound}
    (hmem : .publish uri version [] ∈ l)
    (hempty : ∀ target version diagnostics, .publish target version diagnostics ∈ l →
      diagnostics = []) : lastSent? uri l = some [] := by
  have hsome : (lastSent? uri l).isSome := by
    rw [lastSent?, List.findSome?_isSome_iff]
    exact ⟨_, List.mem_reverse.2 hmem, by simp [Outbound.shown?]⟩
  obtain ⟨diagnostics, h⟩ := Option.isSome_iff_exists.1 hsome
  obtain ⟨m, hm, hshown⟩ := List.exists_of_findSome?_eq_some h
  cases m with
  | publish target version diagnostics' =>
    simp only [Outbound.shown?] at hshown
    split at hshown
    · obtain rfl := Option.some.inj hshown
      rw [h, hempty _ _ _ (List.mem_reverse.1 hm)]
    · cases hshown
  | _ => cases hshown

namespace Workspace

variable {uri : String} {α : Type}

/-! ## Forgetting documents -/

/-- A run that forgets a document publishes nothing but empty lists, among them one for the document;
and wherever the session may refuse what is published, the document is tracked. -/
structure TakesBack (uri : String) (r : Run Workspace α) : Prop where
  stops : ∀ entry ∈ r.said, entry.1.isRefused = true → entry.2.store.contains uri = true
  ends : r.state.store.contains uri = true ∨
    .publish uri none [] ∈ r.said.map (·.1) ∧
      ∀ target version diagnostics, .publish target version diagnostics ∈ r.said.map (·.1) →
        diagnostics = []

/-- A document is tracked, whatever else happens to a workspace. -/
def Tracks (uri : String) (ws : Workspace) : Prop := ws.store.contains uri = true

/-- An action that keeps a document tracked takes nothing back. -/
theorem takesBack_of_steady {a : Action Workspace α} (ha : a.Steady (fun _ => True) (Tracks uri))
    {ws : Workspace} (h : Tracks uri ws) : TakesBack uri (a.run ws) :=
  ⟨fun entry hentry _ => (ha ws h).1 entry hentry trivial, .inl (ha ws h).2⟩

theorem Discreet.tracks {a : Action Workspace α} (ha : Discreet a) :
    a.Steady (fun _ => True) (Tracks uri) := fun ws h =>
  ⟨fun entry hentry _ => show entry.2.store.contains uri = true from
    ((ha ws).1 entry hentry).2.store ▸ h, show (a.run ws).state.store.contains uri = true from
    (ha ws).2.store ▸ h⟩

theorem publish_tracks (target : String) (version : Option Int) (diagnostics : List Diagnostic) :
    (publish target version diagnostics).Steady (fun _ => True) (Tracks uri) :=
  .bind (.say _) fun _ => .update fun _ h => h

theorem validate_tracks (env : Environment) (target : String) :
    (validate env target).Steady (fun _ => True) (Tracks uri) :=
  .bind .state fun _ => .bind (.ofExcept _ _) fun _ => .bind (discreet_compile env).tracks fun _ =>
    .bind (discreet_diagnosticsByUri env _).tracks fun _ => publish_tracks _ _ _

theorem validateAll_tracks (env : Environment) :
    (validateAll env).Steady (fun _ => True) (Tracks uri) :=
  .bind (discreet_compile env).tracks fun _ => .bind (discreet_diagnosticsByUri env _).tracks fun _ =>
    .bind .state fun _ => .forAll (fun _ => .bind .state fun _ => publish_tracks _ _ _) _

theorem require_tracks (target : String) : (require target).Steady (fun _ => True) (Tracks uri) :=
  .bind .state fun _ => by
    split
    · exact .pure _
    · exact .stop _

theorem openDocument_tracks (env : Environment) (d : Params.Opened) :
    (openDocument env d).Steady (fun _ => True) (Tracks uri) :=
  .bind (.update fun ws h => DocumentStore.contains_insert_of_contains (s := ws.store) h _ _) fun _ =>
    validate_tracks env _

theorem changeDocument_tracks (env : Environment) (target : Json) (version : Option Int)
    (changes : List ContentChange) :
    (changeDocument env target version changes).Steady (fun _ => True) (Tracks uri) := by
  have hrequire : (requireValue target).Steady (fun _ => True) (Tracks uri) := by
    unfold requireValue
    split
    · exact .bind (require_tracks _) fun _ => .pure _
    · exact .stop _
    · exact .stop _
    · exact .stop _
  refine .bind hrequire fun target => .state_bind fun ws h => ?_
  cases hedits : ws.store.applyEdits target version (changes.filterMap ContentChange.edit?) with
  | error e => exact (Action.Leads.stop _).weaken fun ws' heq => heq ▸ h
  | ok store =>
    refine .andThen (J := Tracks uri) (.update fun _ _ => ?_) (fun _ => validateAll_tracks env)
      fun _ h => h
    obtain ⟨d, content, -, -, rfl⟩ := DocumentStore.applyEdits_eq_ok hedits
    exact DocumentStore.contains_insert_of_contains (s := ws.store) h _ _

theorem changeSettings_tracks (env : Environment) (settings : Json) :
    (changeSettings env settings).Steady (fun _ => True) (Tracks uri) := by
  have happly : (applySettings env settings).Steady (fun _ => True) (Tracks uri) :=
    .bind .state fun _ => .bind (.update fun _ h => h) fun _ => .bind (.ofExcept _ _) fun _ =>
      .forAll (fun _ => .say _) _
  refine .bind happly fun _ => .bind .state fun _ => ?_
  split
  · exact validateAll_tracks env
  · exact .pure _

/-- A run that says and changes nothing takes nothing back. -/
theorem takesBack_silent (result : Except Fault α) {ws : Workspace} (h : Tracks uri ws) :
    TakesBack uri ⟨[], result, ws⟩ :=
  ⟨fun _ hentry => absurd hentry List.not_mem_nil, .inl h⟩

/-- A collection takes back what was shown for the documents that it forgets. -/
theorem takesBack_collectGarbage {ws : Workspace} (h : Tracks uri ws) :
    TakesBack uri (collectGarbage.run ws) := by
  cases hs : ws.snapshot with
  | none =>
    rw [run_collectGarbage_of_unread hs]
    exact takesBack_silent _ h
  | some s =>
    cases hopened : ws.store.openUris.mapM sourceNameFor with
    | error e =>
      rw [run_collectGarbage_of_unnamed hs hopened]
      exact takesBack_silent _ h
    | ok opened =>
      rw [run_collectGarbage hs hopened]
      cases unreachable ws.store ((importGraph s.program).reach [] opened) ws.store.toList with
      | error e => exact takesBack_silent _ h
      | ok garbage =>
        obtain ⟨said, published, hrun, hsaid⟩ := run_announceEvicted (ws.store.evict garbage).2
          { ws with store := (ws.store.evict garbage).1 }
        simp only [hrun]
        have hpublished (target : String) (version : Option Int) (diagnostics : List Diagnostic)
            (hmem : Effect.publish target version diagnostics ∈
              (ws.store.evict garbage).2.map (.publish · none [])) :
            version = none ∧ diagnostics = [] := by
          obtain ⟨_, -, heq⟩ := List.mem_map.1 hmem
          cases heq
          exact ⟨rfl, rfl⟩
        refine ⟨fun entry hentry hrefused => ?_, ?_⟩
        · have hmem := List.mem_map_of_mem (f := (·.1)) hentry
          rw [hsaid] at hmem
          obtain ⟨_, -, heq⟩ := List.mem_map.1 hmem
          rw [← heq] at hrefused
          cases hrefused
        · rw [hsaid]
          cases hgone : (ws.store.evict garbage).1.contains uri with
          | true => exact .inl rfl
          | false =>
            exact .inr ⟨List.mem_map_of_mem (DocumentStore.mem_evict h hgone),
              fun target version diagnostics hmem => (hpublished target version diagnostics hmem).2⟩

/-- What takes back may come after what keeps a document tracked and publishes only empty lists. -/
theorem TakesBack.after {β : Type} {a : Action Workspace α} {f : α → Action Workspace β}
    {ws ws' : Workspace} {x : α} {said : List (Effect × Workspace)}
    (hrun : a.run ws = ⟨said, .ok x, ws'⟩) (hstops : ∀ entry ∈ said, Tracks uri entry.2)
    (hempty : ∀ target version diagnostics,
      .publish target version diagnostics ∈ said.map (·.1) → diagnostics = [])
    (h : TakesBack uri ((f x).run ws')) : TakesBack uri ((a >>= f).run ws) := by
  rw [Action.run_bind_ok hrun]
  refine ⟨fun entry hentry hrefused => ?_, h.ends.imp id fun hends => ⟨?_, ?_⟩⟩
  · rcases List.mem_append.1 hentry with hmem | hmem
    · exact hstops entry hmem
    · exact h.stops entry hmem hrefused
  · rw [List.map_append]
    exact List.mem_append_right _ hends.1
  · intro target version diagnostics hmem
    rw [List.map_append] at hmem
    rcases List.mem_append.1 hmem with hmem | hmem
    · exact hempty target version diagnostics hmem
    · exact hends.2 target version diagnostics hmem

/-- Clearing a document and collecting take back what was shown for the documents that are
forgotten. -/
theorem takesBack_clear_collectGarbage (target : String) {ws : Workspace} (h : Tracks uri ws) :
    TakesBack uri ((do clear target; let _ ← collectGarbage : Action Workspace Unit).run ws) := by
  have hclear : (clear target).run ws = ⟨[(.publish target (ws.versionOf target) [], ws)], .ok (),
      ws.notePublished target []⟩ := rfl
  refine .after hclear (fun entry hentry => ?_) (fun t version diagnostics hmem => ?_) ?_
  · obtain rfl := List.mem_singleton.1 hentry
    exact h
  · simp only [List.map_cons, List.map_nil, List.mem_singleton] at hmem
    cases hmem
    rfl
  · have hcollect : TakesBack uri (collectGarbage.run (ws.notePublished target [])) :=
      takesBack_collectGarbage h
    rw [Action.run_bind_pure]
    exact ⟨hcollect.stops, hcollect.ends⟩

/-- Closing a document takes back what was shown for the documents that are forgotten with it. -/
theorem takesBack_closeDocument (target : String) {ws : Workspace} (h : Tracks uri ws) :
    TakesBack uri ((closeDocument target).run ws) := by
  cases htracked : ws.store.contains target with
  | true =>
    obtain ⟨store, hclose, hrun⟩ := run_closeDocument htracked
    rw [hrun]
    exact takesBack_clear_collectGarbage target ((DocumentStore.contains_close hclose uri).trans h)
  | false =>
    rw [run_closeDocument_of_unknown htracked]
    exact takesBack_silent _ h

end Workspace

namespace Serving

variable {α : Type} {uri : String}

/-- While a message is dispatched, a delivery ends with the entries or at one that is refused. -/
theorem deliverAll_dispatching {s : Session Workspace} (hs : s.failing = 0)
    (hdispatching : s.dispatching = true) (l : List (Effect × Workspace)) :
    (deliverAll hear s l).2 = none ∧ (∀ entry ∈ l, entry.1.isRefused = false) ∨
      ∃ entry ∈ l, entry.1.isRefused = true ∧
        ∃ f, (deliverAll hear s l).2 = some (f, entry.2) := by
  induction l generalizing s with
  | nil => exact .inl ⟨rfl, fun _ hentry => absurd hentry List.not_mem_nil⟩
  | cons entry rest ih =>
    obtain ⟨e, t⟩ := entry
    rw [deliverAll_cons]
    rcases hear_dispatching hs hdispatching e with ⟨hrefused, v, hv⟩ | ⟨hheard, s', hs', hadvance⟩
    · rw [hv]
      exact .inr ⟨(e, t), List.mem_cons_self, hrefused, _, rfl⟩
    · rw [hs']
      rcases ih (hadvance.failing.trans hs) (hadvance.dispatching.trans hdispatching) with
        ⟨hnone, hrest⟩ | ⟨entry, hmem, hrefused, f, hstop⟩
      · refine .inl ⟨hnone, fun entry hentry => ?_⟩
        rcases List.mem_cons.1 hentry with rfl | hmem
        · exact hheard
        · exact hrest entry hmem
      · exact .inr ⟨entry, List.mem_cons_of_mem _ hmem, hrefused, f, hstop⟩

/-- If nothing is refused, everything that is published is held back. -/
theorem publications_eq {l : List Effect} (h : ∀ e ∈ l, e.isRefused = false) :
    publications l = l.filterMap Effect.publication? := by
  induction l with
  | nil => rfl
  | cons e rest ih =>
    rw [publications_cons (h e List.mem_cons_self),
      ih fun e he => h e (List.mem_cons_of_mem _ he), List.filterMap_cons]
    cases e.publication? <;> rfl

/-- A document that is tracked before an action is performed is tracked afterwards, or empty lists are
held back for it. -/
theorem tracks_perform {a : Action Workspace α} {s : Session Workspace} (hspares : a.SparesChannel)
    (hs : s.failing = 0) (hdispatching : s.dispatching = true)
    (h : TakesBack uri (a.run s.host)) :
    Tracks uri ((perform a).after s).2.host ∨
      ∃ pushed, ((perform a).after s).2.deferred = s.deferred ++ pushed ∧
        lastSent? uri pushed = some [] := by
  have hdeferred := (advances_perform hspares hs hdispatching).1.deferred
  rcases deliverAll_dispatching hs hdispatching (a.run s.host).said with
    ⟨hnone, hheard⟩ | ⟨entry, hmem, hrefused, f, hstop⟩
  · have hhost : ((perform a).after s).2.host = (a.run s.host).state := by
      rw [after_perform]
      unfold Run.deliver
      cases hd : deliverAll hear s (a.run s.host).said with
      | mk t stop =>
        obtain rfl : stop = none := by rw [← hnone, hd]
        rfl
    rw [hhost]
    refine h.ends.imp id fun ⟨hmem, hempty⟩ => ⟨_, hdeferred, ?_⟩
    rw [publications_eq fun e he => by
      obtain ⟨entry, hentry, rfl⟩ := List.mem_map.1 he
      exact hheard entry hentry]
    refine lastSent?_eq_nil (List.mem_filterMap.2 ⟨_, hmem, rfl⟩) fun target version d hd => ?_
    obtain ⟨e, he, heq⟩ := List.mem_filterMap.1 hd
    cases e with
    | publish t v d' =>
      cases heq
      exact hempty _ _ _ he
    | _ => cases heq
  · left
    have hhost : ((perform a).after s).2.host = entry.2 := by
      rw [after_perform]
      unfold Run.deliver
      cases hd : deliverAll hear s (a.run s.host).said with
      | mk t stop =>
        obtain rfl : stop = some (f, entry.2) := by rw [← hstop, hd]
        rfl
    rw [hhost]
    exact h.stops entry hmem hrefused

end Serving

namespace Session

open Serving

variable {env : Environment} {id : ServerId} {uri : String}

/-! ## Messages -/

/-- What a message asks of the compiler takes back what was shown for the documents that are
forgotten. -/
theorem takesBack_deed {m : Method} {params : Json} {a : Action Workspace Json}
    (ha : deed? (.ofCompiler env id) m params = some a) {ws : Workspace} (h : Tracks uri ws) :
    TakesBack uri (a.run ws) := by
  have hsteady {α : Type} {f : α → Json} {a : Action Workspace α}
      (ha : a.Steady (fun _ => True) (Tracks uri)) :
      TakesBack uri ((do return f (← a) : Action Workspace Json).run ws) :=
    takesBack_of_steady (.bind ha fun _ => .pure _) h
  cases isDeed_of_deed? ha with
  | initialised => exact hsteady (f := fun _ : Unit => Json.null) (.pure ())
  | settings => exact hsteady (f := fun _ : Unit => Json.null) (changeSettings_tracks env _)
  | opened _ => exact hsteady (f := fun _ : Unit => Json.null) (openDocument_tracks env _)
  | changed _ => exact hsteady (f := fun _ : Unit => Json.null) (changeDocument_tracks env _ _ _)
  | closed _ =>
    obtain ⟨hstops, hends⟩ := takesBack_closeDocument _ h
    rw [Action.run_bind_pure _ fun _ => Json.null]
    exact ⟨hstops, hends⟩
  | definition _ => exact hsteady (discreet_query env reads_definition _ _).tracks
  | highlights _ => exact hsteady (discreet_query env reads_highlights _ _).tracks
  | references _ => exact hsteady (discreet_query env reads_references _ _).tracks

/-- A document that is tracked before a message is dispatched is tracked afterwards, or an empty list
is the last that is held back for it. -/
theorem tracks_dispatch (env : Environment) (id : ServerId) {s : Session Workspace}
    (hs : s.failing = 0) (hdispatching : s.dispatching = true) (h : Tracks uri s.host)
    (method : String) (params : Json) (isRequest : Bool) :
    Tracks uri ((dispatch (.ofCompiler env id) method params isRequest).after s).2.host ∨
      ∃ pushed, ((dispatch (.ofCompiler env id) method params isRequest).after s).2.deferred =
        s.deferred ++ pushed ∧ lastSent? uri pushed = some [] := by
  rcases exists_dispatch (.ofCompiler env id) method params isRequest s.lifecycle with
    ⟨x, -, -, hdispatch⟩ | ⟨-, m, -, hdispatch⟩
  · rw [hdispatch s rfl]
    exact .inl h
  · rw [hdispatch s rfl]
    cases hdelegated : m.isDelegated with
    | true =>
      rcases handle_delegated (.ofCompiler env id) hdelegated params with
        ⟨a, ha, hperform⟩ | ⟨-, e, hrefuse⟩
      · rw [hperform s]
        exact tracks_perform (sparesChannel_deed (spareChannel_ofCompiler env id) ha) hs
          hdispatching (takesBack_deed ha h)
      · rw [hrefuse s]
        exact .inl h
    | false =>
      refine .inl (handle_own_preserves_host (J := Tracks uri) hdelegated ?_ s h)
      exact fun root folders options =>
        prepare_steady (fun _ _ h => h) (fun _ _ h => h) id root folders options

/-- A document that is tracked before something is received is tracked afterwards, or an empty list
was the last that was sent for it. -/
theorem tracks_step {s s' : Session Workspace} (hs : s.failing = 0) {r : Received}
    (hstep : step (.ofCompiler env id) (.arrival r) s = .ok () s') (h : Tracks uri s.host) :
    Tracks uri s'.host ∨ lastSent? uri s'.outbox = some [] := by
  cases hmethod : eventMethod? (.arrival r) with
  | none =>
    exact .inl (step_unhandled (isLasting_host (Tracks uri)).toIsAmbient (fun _ _ h => h) hmethod
      hstep h)
  | some method =>
    obtain ⟨v, -, -, hprocess⟩ := step_handled (.ofCompiler env id) hmethod
    rw [hprocess] at hstep
    obtain ⟨x, t, hdispatch, rfl, -⟩ := process_eq_ok hstep
    have htracks := tracks_dispatch env id (s := s.begun method (paramsOf v) (v.field? "id").isSome)
      hs rfl h method (paramsOf v) (v.field? "id").isSome
    rw [hdispatch] at htracks
    rcases htracks with htracked | ⟨pushed, hdeferred, hsent⟩
    · exact .inl htracked
    · right
      simp only at hdeferred
      simp only [finished, hdeferred]
      rw [← List.append_assoc]
      exact lastSent?_append_of_some hsent _

/-! ## Sessions -/

/-- The sessions that can come about by what clients send, with what was last shown for a document, and
whether the document was tracked before or after the message that led to it. -/
inductive Displayed (env : Environment) (id : ServerId) (uri : String) :
    Option (List Diagnostic × Bool) → Session Workspace → Prop
  | start : Displayed env id uri none { host := .empty }
  | step {shown : Option (List Diagnostic × Bool)} {s s' : Session Workspace} {r : Received}
      (h : Displayed env id uri shown s)
      (hstep : Session.step (.ofCompiler env id) (.arrival r) s.cleared = .ok () s') :
      Displayed env id uri
        (match lastSent? uri s'.outbox with
        | some diagnostics =>
          some (diagnostics, s.host.store.contains uri || s'.host.store.contains uri)
        | none => shown) s'

/-- Between messages, a session is idle, and its sends work. -/
theorem Displayed.isIdle {shown : Option (List Diagnostic × Bool)} {s : Session Workspace}
    (h : Displayed env id uri shown s) : s.failing = 0 ∧ s.IsIdle := by
  induction h with
  | start => exact ⟨rfl, rfl, rfl⟩
  | @step shown s s' r _ hstep ih =>
    exact isIdle_step (s := s.cleared) (spareChannel_ofCompiler env id) ih.1
      ⟨ih.2.dispatching, ih.2.deferred⟩ hstep

/-- What is shown for a document is nothing, or the document is still tracked. -/
theorem Displayed.eq_nil_or_tracks {shown : Option (List Diagnostic × Bool)} {s : Session Workspace}
    (h : Displayed env id uri shown s) :
    ∀ diagnostics, shown = some (diagnostics, true) → diagnostics = [] ∨ Tracks uri s.host := by
  induction h with
  | start => exact fun _ => nofun
  | @step shown s s' r h hstep ih =>
    have hkept (htracked : Tracks uri s.host) :
        Tracks uri s'.host ∨ lastSent? uri s'.outbox = some [] :=
      tracks_step (s := s.cleared) h.isIdle.1 hstep htracked
    intro diagnostics hshown
    cases hsent : lastSent? uri s'.outbox with
    | some diagnostics' =>
      simp only [hsent, Option.some.injEq, Prod.mk.injEq, Bool.or_eq_true] at hshown
      obtain ⟨rfl, hbefore | hafter⟩ := hshown
      · refine (hkept hbefore).symm.imp (fun hnil => ?_) fun htracked => htracked
        exact Option.some.inj (hsent.symm.trans hnil)
      · exact .inr hafter
    | none =>
      rw [hsent] at hshown
      refine (ih diagnostics hshown).imp (fun hnil => hnil) fun htracked => ?_
      exact (hkept htracked).resolve_right (by simp [hsent])

/-- Nothing stale is left of documents.  If something was published for a document that was tracked
before or after the message that led to it, and the document is not tracked any more, then what was
published last was empty.  So whatever is still shown when no document is tracked was only ever found
in a source that the engine had read from disk. -/
theorem Displayed.eq_nil_of_forgotten {diagnostics : List Diagnostic} {s : Session Workspace}
    (h : Displayed env id uri (some (diagnostics, true)) s)
    (hforgotten : s.host.store.contains uri = false) : diagnostics = [] :=
  (h.eq_nil_or_tracks diagnostics rfl).resolve_right (by simp [Tracks, hforgotten])

/-- A message leads to another session that can come about. -/
theorem Displayed.hearing {shown : Option (List Diagnostic × Bool)} {s : Session Workspace}
    (h : Displayed loneEnvironment ⟨"toy", none⟩ uri shown s) {v : Json}
    (hheard : isHeard s v = true) :
    Displayed loneEnvironment ⟨"toy", none⟩ uri
      (match lastSent? uri (hearing s v).outbox with
      | some diagnostics =>
        some (diagnostics, s.host.store.contains uri || (hearing s v).host.store.contains uri)
      | none => shown) (hearing s v) := h.step (step_of_isHeard hheard)

/-- The session after a document with a mistake was opened. -/
def mistakenSession : Session Workspace :=
  hearing (hearing { host := .empty } (requestOf 1 .initialise (.obj []))) (opening "u" "f;")

theorem exists_displayed_mistakenSession :
    ∃ shown, Displayed loneEnvironment ⟨"toy", none⟩ "u" shown mistakenSession :=
  ⟨_, (Displayed.start.hearing (by decide +kernel)).hearing (by decide +kernel)⟩

/-- The mistake is not shown any more when the document was closed. -/
theorem Displayed.eq_nil_mistaken :
    ∃ s diagnostics, (lastSent? "u" mistakenSession.outbox).any (!·.isEmpty) = true ∧
      Displayed loneEnvironment ⟨"toy", none⟩ "u" (some (diagnostics, true)) s ∧
      s.host.store.contains "u" = false ∧ diagnostics = [] := by
  obtain ⟨shown, hopened⟩ := exists_displayed_mistakenSession
  have hclosed := hopened.hearing (v := closing "u") (by decide +kernel)
  have hsent : lastSent? "u" (Session.hearing mistakenSession (closing "u")).outbox = some [] := by
    decide +kernel
  have htracked : mistakenSession.host.store.contains "u" = true := by decide +kernel
  have hforgotten : (Session.hearing mistakenSession (closing "u")).host.store.contains "u" = false :=
    by decide +kernel
  simp only [hsent, htracked, Bool.true_or] at hclosed
  refine ⟨Session.hearing mistakenSession (closing "u"), [], by decide +kernel, hclosed, hforgotten,
    ?_⟩
  exact hclosed.eq_nil_of_forgotten hforgotten

end Session

end LanguageServer
