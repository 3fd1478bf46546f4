import LanguageServer.Proofs.Session.Purity

/-!
# Sessions that can come about

What a session sent and whether compiling is stopped in it are read off the messages that
it has handled.  Whatever these were, its documents are kept in order; and unless compiling
is stopped, its workspace is settled.

## Main definitions

* `Session.Reached` — the sessions that can come about by what clients send.
* `Session.succeeds` — whether a message is handled without error.

## Main statements

* `Session.Reached.isHeld` — what holds of the workspaces of such sessions.
* `Session.host_of_succeeds` — what a message that is handled without error does.
-/

namespace LanguageServer

open Workspace

variable {env : Environment} {id : ServerId} {budget : Nat} {stopped : Bool}
  {sent : List Outbound}

/-! ## Keeping documents in order -/

theorem query_staysKept {α : Type} (henv : env.IsToy budget)
    {answer : Program → String → Position → Action Workspace α}
    {f : View → Program → String → Position → Except Fault α}
    (hreads : ∀ program source p, Reads (answer program source p) fun v => f v program source p)
    (uri : String) (p : Position) :
    (query env answer uri p).Steady (·.isPush = true) IsKept :=
  query_steady (fun _ hsize h => isKept_upToDate henv ⟨h, hsize⟩)
    (fun _ _ ⟨_, hrecall, _⟩ h => hrecall ▸ ⟨h.formed, h.bounded, h.seen⟩) hreads uri p

theorem closeDocument_staysKept (uri : String) :
    (closeDocument uri).Steady (·.isPush = true) IsKept :=
  closeDocument_steady (fun _ _ h => ⟨h.formed, h.bounded, h.seen⟩)
    (fun _ garbage h => h.evict garbage) (fun _ _ _ hclose h => h.close hclose) uri

namespace Session

open Serving

/-- What relies on the latest program keeps the documents in order, also if that program is not of
these documents. -/
theorem deed_staysKept (henv : env.IsToy budget) {m : Method} (hm : m.isReliant = true)
    {params : Json} {a : Action Workspace Json} (ha : deed? (.ofCompiler env id) m params = some a) :
    a.Steady (·.isPush = true) IsKept := by
  cases isDeed_of_deed? ha with
  | closed _ => exact .bind (closeDocument_staysKept _) fun _ => .pure _
  | definition _ => exact .bind (query_staysKept henv reads_definition _ _) fun _ => .pure _
  | highlights _ => exact .bind (query_staysKept henv reads_highlights _ _) fun _ => .pure _
  | references _ => exact .bind (query_staysKept henv reads_references _ _) fun _ => .pure _
  | _ => cases hm

/-! ## Reached sessions -/

/-- The sessions that can come about by what clients send, with whether compiling is stopped in them
and with all that was sent. -/
inductive Reached (env : Environment) (id : ServerId) :
    Bool → List Outbound → Session Workspace → Prop
  | start : Reached env id false [] { host := .empty }
  | step {stopped : Bool} {sent : List Outbound} {s s' : Session Workspace} {r : Received}
      (h : Reached env id stopped sent s) (hexited : s.lifecycle ≠ .exited)
      (hstep : Session.step (.ofCompiler env id) (.arrival r) s.cleared = .ok () s') :
      Reached env id (stopsAfter (.ofCompiler env id) s.cleared stopped r) (sent ++ s'.outbox) s'

/-- The documents are in order, the workspace is settled unless compiling is stopped, there are no
documents before the initialisation, and sending works. -/
structure IsHeld (env : Environment) (stopped : Bool) (s : Session Workspace) : Prop where
  kept : s.host.IsKept
  settled : stopped = false → s.host.IsSettled env
  idle : s.lifecycle = .uninitialized → s.host.store.size = 0
  working : s.failing = 0
  quiet : s.IsIdle

theorem IsHeld.accords {s : Session Workspace} (h : IsHeld env stopped s) :
    Accords (Matched env stopped) s s where
  same := ⟨s.calls, s.host, rfl⟩
  working := h.working
  hosts :=
    ⟨⟨.refl h.kept, fun hcalm => .refl (h.settled hcalm)⟩, fun hl =>
      ⟨.refl (h.kept.isSettled (h.idle hl)), h.idle hl⟩⟩

theorem isHeld_of_accords {s : Session Workspace} (h : Accords (Matched env stopped) s s)
    (hquiet : s.IsIdle) : IsHeld env stopped s where
  kept := h.hosts.standing.kept.left
  settled hcalm := (h.hosts.standing.alike hcalm).left
  idle hl := (h.hosts.idle hl).size
  working := h.working
  quiet := hquiet

/-! ## Messages that are handled -/

variable {γ : Type}

theorem handled?_eq_some {s : Session γ} {v : Json} {m : Method} (h : handled? s v = some m) :
    s.lifecycle = .initialized ∧ methodOf? v = some m.name := by
  unfold handled? at h
  split at h
  · next hl =>
    obtain ⟨method, hmethod, hname⟩ := Option.bind_eq_some_iff.1 h
    exact ⟨hl, name_of_ofName? hname ▸ hmethod⟩
  · cases h

/-- An initialised session handles a message with a method that is passed on. -/
theorem dispatch_initialised (caps : Capabilities γ) {s : Session γ} (hl : s.lifecycle = .initialized)
    {m : Method} (hm : m.isDelegated = true) (params : Json) (isRequest : Bool) :
    (dispatch caps m.name params isRequest).after s = (handle caps m params).after s := by
  have hname := m.ofName?_name
  rcases exists_dispatch caps m.name params isRequest .initialized with
    ⟨x, -, hwhen, -⟩ | ⟨-, m', hname', hdispatch⟩
  · rcases hwhen with hadmits | hnone
    · cases m <;> first | exact absurd hadmits (by decide) | cases hm
    · rw [hname] at hnone
      cases hnone
  · obtain rfl := Option.some.inj (hname.symm.trans hname')
    exact hdispatch s hl

/-- Whether a message is handled without error. -/
def succeeds (caps : Capabilities γ) (s : Session γ) (v : Json) : Bool :=
  match methodOf? v with
  | some method =>
    ((dispatch caps method (paramsOf v) (v.field? "id").isSome).after
      (s.begun method (paramsOf v) (v.field? "id").isSome)).1.isOk
  | none => false

/-- What a message does that is handled with a method that is passed on: it performs what it asks for,
or it is refused. -/
theorem step_handled_delegated {caps : Capabilities γ} {s s' : Session γ} {v : Json} {m : Method}
    (hv : handled? s v = some m) (hm : m.isDelegated = true)
    (hstep : step caps (.arrival (.message v)) s = .ok () s') :
    (∃ a x t, deed? caps m (paramsOf v) = some a ∧
        (perform a).after (s.begun m.name (paramsOf v) (v.field? "id").isSome) = (x, t) ∧
        (∀ reason, x ≠ .error (.channel reason)) ∧ succeeds caps s v = x.isOk ∧
        s' = t.finished (response (v.field? "id") m.name x)) ∨
      deed? caps m (paramsOf v) = none ∧ succeeds caps s v = false ∧
        ∃ sent, s' = (s.begun m.name (paramsOf v) (v.field? "id").isSome).finished sent := by
  obtain ⟨hl, hmethod⟩ := handled?_eq_some hv
  rw [show step caps (.arrival (.message v)) = process caps (v.field? "id") m.name (paramsOf v) from
    receive_eq_process caps hmethod] at hstep
  obtain ⟨x, t, hdispatch, rfl, hchannel⟩ := process_eq_ok hstep
  have hsucceeds : succeeds caps s v = x.isOk := by
    simp only [succeeds, hmethod, hdispatch]
  rw [dispatch_initialised caps (s := s.begun _ _ _) hl hm] at hdispatch
  rcases handle_delegated caps hm (paramsOf v) with ⟨a, ha, hperform⟩ | ⟨hnone, e, hrefuse⟩
  · rw [hperform] at hdispatch
    exact .inl ⟨a, x, t, ha, hdispatch, hchannel, hsucceeds, rfl⟩
  · rw [hrefuse] at hdispatch
    obtain ⟨rfl, rfl⟩ := Prod.mk.inj hdispatch
    exact .inr ⟨hnone, hsucceeds, _, rfl⟩

/-- A message that is handled without error has the effect of what it asks for. -/
theorem host_of_succeeds {caps : Capabilities γ} {s s' : Session γ} {v : Json} {m : Method}
    (hv : handled? s v = some m) (hm : m.isDelegated = true)
    (hstep : step caps (.arrival (.message v)) s = .ok () s') (hsucceeds : succeeds caps s v = true) :
    ∃ a x, deed? caps m (paramsOf v) = some a ∧ (a.run s.host).result = .ok x ∧
      s'.host = (a.run s.host).state := by
  rcases step_handled_delegated hv hm hstep with ⟨a, x, t, ha, hperform, -, hx, rfl⟩ | ⟨-, hfails, -⟩
  · have hcases := perform_cases a (s.begun m.name (paramsOf v) (v.field? "id").isSome)
    rw [hperform] at hcases
    rw [hsucceeds] at hx
    cases x with
    | error f => cases hx
    | ok value =>
      rcases hcases with ⟨hresult, hhost⟩ | ⟨reason, hreason⟩ | ⟨entry, -, -, -, version, hversion⟩
      · exact ⟨a, value, ha, hresult.symm, hhost⟩
      · cases hreason
      · cases hversion
  · rw [hsucceeds] at hfails
    cases hfails

/-! ## What holds of reached sessions -/

/-- What relies on the latest program does not change whether compiling is stopped. -/
theorem stopsAt_of_reliant {caps : Capabilities γ} {s : Session γ} {v : Json} {m : Method}
    (hv : handled? s v = some m) (hm : m.isReliant = true) : stopsAt caps s stopped v = stopped := by
  have hrevision : m.isRevision = false := by cases m <;> first | rfl | cases hm
  obtain ⟨hl, hmethod⟩ := handled?_eq_some hv
  simp only [stopsAt, stopsDispatching, hmethod, m.ofName?_name]
  rw [if_pos (show (s.begun _ _ _).lifecycle = .initialized from hl)]
  exact staysStopped_of_not_isRevision hrevision stopped _

/-- What relies on the latest program while compiling is stopped leaves the session as it has to
be. -/
theorem IsHeld.rely (henv : env.IsToy budget) {s s' : Session Workspace} (h : IsHeld env true s)
    {v : Json} {m : Method} (hv : handled? s v = some m) (hm : m.isReliant = true)
    (hstep : step (.ofCompiler env id) (.arrival (.message v)) s = .ok () s') :
    IsHeld env true s' := by
  obtain ⟨hworking, hquiet⟩ :=
    isIdle_step (spareChannel_ofCompiler env id) h.working h.quiet hstep
  have hdelegated : m.isDelegated = true := by cases m <;> first | rfl | cases hm
  have hl := (handled?_eq_some hv).1
  rcases step_handled_delegated hv hdelegated hstep with
    ⟨a, x, t, ha, hperform, hchannel, -, rfl⟩ | ⟨-, -, sent, rfl⟩
  · have hcases := perform_cases a (s.begun m.name (paramsOf v) (v.field? "id").isSome)
    have hlifecycle := lifecycle_perform a (s.begun m.name (paramsOf v) (v.field? "id").isSome)
    obtain ⟨hpushes, hend⟩ := deed_staysKept henv hm ha s.host h.kept
    rw [hperform] at hcases hlifecycle
    refine ⟨?_, nofun, fun huninitialised => ?_, hworking, hquiet⟩
    · rcases hcases with ⟨-, hhost⟩ | ⟨reason, hreason⟩ | ⟨entry, hmem, hpush, hhost, -⟩
      · exact (show t.host = _ from hhost) ▸ hend
      · exact absurd hreason (hchannel reason)
      · exact (show t.host = _ from hhost) ▸ hpushes entry hmem hpush
    · rw [show t.lifecycle = .uninitialized from huninitialised] at hlifecycle
      exact absurd (hlifecycle.trans hl) (by decide)
  · exact ⟨h.kept, nofun, h.idle, hworking, hquiet⟩

theorem IsHeld.step (henv : env.IsToy budget) {s s' : Session Workspace} (h : IsHeld env stopped s)
    (hexited : s.lifecycle ≠ .exited) {r : Received}
    (hstep : Session.step (.ofCompiler env id) (.arrival r) s = .ok () s') :
    IsHeld env (stopsAfter (.ofCompiler env id) s stopped r) s' := by
  cases hcalm : stopped && relies s r with
  | false =>
    obtain ⟨-, hstate⟩ := agree_step id henv h.accords hexited hcalm
    rw [after_of_ok hstep] at hstate
    exact isHeld_of_accords hstate
      (isIdle_step (spareChannel_ofCompiler env id) h.working h.quiet hstep).2
  | true =>
    obtain ⟨rfl, hrelies⟩ := Bool.and_eq_true_iff.1 hcalm
    cases r with
    | message v =>
      obtain ⟨m, hv, hm⟩ := (Option.any_eq_true ..).1 hrelies
      rw [show stopsAfter (.ofCompiler env id) s true (.message v) = true from stopsAt_of_reliant hv hm]
      exact h.rely henv hv hm hstep
    | _ => cases hrelies

/-- The sessions that can come about have their documents in order, and are settled unless compiling
is stopped. -/
theorem Reached.isHeld (henv : env.IsToy budget) {s : Session Workspace}
    (h : Reached env id stopped sent s) : IsHeld env stopped s := by
  induction h with
  | start =>
    have hempty : Workspace.empty.IsSettled env := isSettled_empty
    exact ⟨hempty.isKept, fun _ => hempty, fun _ => rfl, rfl, rfl, rfl⟩
  | @step stopped sent s s' r _ hexited hstep ih =>
    exact IsHeld.step (s := s.cleared) henv ⟨ih.kept, ih.settled, ih.idle, ih.working,
      ih.quiet.dispatching, ih.quiet.deferred⟩
      hexited hstep

/-! ## Following messages -/

/-- The session after messages. -/
def afterAll (caps : Capabilities γ) (s : Session γ) : List Json → Session γ
  | [] => s
  | v :: rest => afterAll caps ((step caps (.arrival (.message v))).after s.cleared).2 rest

/-- Whether compiling is stopped after messages. -/
def stopsAll (caps : Capabilities γ) (s : Session γ) (stopped : Bool) : List Json → Bool
  | [] => stopped
  | v :: rest =>
    stopsAll caps ((step caps (.arrival (.message v))).after s.cleared).2
      (stopsAt caps s.cleared stopped v) rest

/-- All that is sent for messages. -/
def sentAll (caps : Capabilities γ) (s : Session γ) : List Json → List Outbound
  | [] => []
  | v :: rest =>
    ((step caps (.arrival (.message v))).after s.cleared).2.outbox ++
      sentAll caps ((step caps (.arrival (.message v))).after s.cleared).2 rest

/-- Whether a session goes on after each of some messages. -/
def goesOn (caps : Capabilities γ) (s : Session γ) : List Json → Bool
  | [] => true
  | v :: rest =>
    s.lifecycle != .exited && ((step caps (.arrival (.message v))).after s.cleared).1.isOk &&
      goesOn caps ((step caps (.arrival (.message v))).after s.cleared).2 rest

theorem step_of_isOk {caps : Capabilities γ} {s : Session γ} {v : Json}
    (h : ((step caps (.arrival (.message v))).after s).1.isOk = true) :
    step caps (.arrival (.message v)) s =
      .ok () ((step caps (.arrival (.message v))).after s).2 := by
  unfold after at h ⊢
  cases hstep : step caps (.arrival (.message v)) s with
  | ok u s' => rfl
  | error e s' =>
    rw [hstep] at h
    cases h

/-- A session that goes on comes about. -/
theorem Reached.afterAll {s : Session Workspace} (h : Reached env id stopped sent s) {l : List Json}
    (hgoes : goesOn (.ofCompiler env id) s l = true) :
    Reached env id (stopsAll (.ofCompiler env id) s stopped l)
      (sent ++ sentAll (.ofCompiler env id) s l) (Session.afterAll (.ofCompiler env id) s l) := by
  induction l generalizing s stopped sent with
  | nil => simpa [Session.afterAll, stopsAll, sentAll] using h
  | cons v rest ih =>
    simp only [goesOn, Bool.and_eq_true, bne_iff_ne, ne_eq] at hgoes
    obtain ⟨⟨hexited, hok⟩, hrest⟩ := hgoes
    have hnext := ih (h.step hexited (step_of_isOk hok)) hrest
    simpa [Session.afterAll, stopsAll, sentAll, stopsAfter, List.append_assoc] using hnext

end Session

end LanguageServer
