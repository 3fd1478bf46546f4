import LanguageServer.Proofs.Session.Core
import LanguageServer.Proofs.Session.Reached

/-!
# Before the initialisation

A session that is not initialised takes up nothing but an exit and an initialisation.  A
notification of anything else leaves it as it is, and a request is refused, whatever the
capabilities are: they are not asked.  Nothing is traced before the initialisation either,
because the trace level is set together with the lifecycle.

## Main definitions

* `Session.Ongoing` — the sessions that come about event by event.
* `Session.IsReady` — no message is being handled, and nothing is traced too early.

## Main statements

* `Session.Ongoing.isReady` — sessions are ready between events.
* `Session.Ongoing.receive_uninitialized` — what is taken up before the initialisation.
-/

namespace LanguageServer

namespace Session

open Serving

variable {γ : Type} {caps : Capabilities γ} {s t : Session γ}

/-- The sessions that come about event by event, as long as each event is handled to its end. -/
inductive Ongoing (caps : Capabilities γ) : Session γ → Prop
  | start (host : γ) : Ongoing caps { host }
  | step {s t : Session γ} {e : Event} (h : Ongoing caps s) (hexited : s.lifecycle ≠ .exited)
      (hstep : Session.step caps e s.cleared = .ok () t) : Ongoing caps t

/-- No message is being handled, and before the initialisation nothing is traced. -/
structure IsReady (s : Session γ) : Prop extends s.IsIdle where
  untraced : s.lifecycle = .uninitialized → s.trace = .off

/-! ## No message is being handled -/

theorem isIdle_send {m : Outbound} {u : Unit} (hs : s.IsIdle) (h : send m s = .ok u t) :
    t.IsIdle := by
  obtain rfl := send_eq_ok h
  exact ⟨hs.dispatching, hs.deferred⟩

theorem isIdle_hear {e : Effect} {u : Unit} (hs : s.IsIdle) (h : hear e s = .ok u t) :
    t.IsIdle := by
  cases e with
  | log level message => exact isIdle_send hs h
  | trace message verbose =>
    simp only [hear, Serving.tell, bind, EStateM.bind, get_apply] at h
    cases htrace : s.trace with
    | off =>
      simp only [htrace] at h
      injection h with _ h
      exact h ▸ hs
    | _ =>
      simp only [htrace] at h
      exact isIdle_send hs h
  | engine call =>
    injection h with _ h
    exact h ▸ ⟨hs.dispatching, hs.deferred⟩
  | publish uri version diagnostics =>
    cases hversion : version.filter (!Params.isVersion ·) with
    | some v =>
      simp only [hear, push, hversion] at h
      cases h
    | none =>
      simp only [hear, push, hversion, bind, EStateM.bind, get_apply, hs.dispatching] at h
      exact isIdle_send hs h

theorem isIdle_step_unhandled {e : Event} {u : Unit} (he : eventMethod? e = none) (hs : s.IsIdle)
    (h : step caps e s = .ok u t) : t.IsIdle := by
  have hpure {u v : Unit} (h : (pure v : Serving γ Unit) s = .ok u t) : t.IsIdle := by
    injection h with _ h
    exact h ▸ hs
  cases e with
  | remark e => exact isIdle_hear hs h
  | complaint id error => exact isIdle_send hs h
  | failSends n =>
    injection h with _ h
    exact h ▸ ⟨hs.dispatching, hs.deferred⟩
  | arrival r =>
    cases r with
    | message v =>
      rcases receive_unhandled caps (v := v) he with ⟨-, hreceive⟩ | ⟨-, id, e, hreceive⟩
      · rw [show step caps (.arrival (.message v)) = _ from hreceive] at h
        exact hpure h
      · rw [show step caps (.arrival (.message v)) = _ from hreceive] at h
        exact isIdle_send hs h
    | malformed reason => exact isIdle_send hs h
    | closed => exact hpure h
    | failed reason => cases h
    | oversized => cases h

/-! ## Nothing is traced -/

theorem trace_eq_of_core (h : t.core = s.core) : t.trace = s.trace :=
  show t.core.trace = s.core.trace by rw [h]

/-- The lifecycle and the trace level are left alone by what the capabilities do. -/
theorem trace_perform {α : Type} (a : Action γ α) (s : Session γ) :
    ((perform a).after s).2.trace = s.trace :=
  show ((perform a).after s).2.core.trace = _ by rw [core_perform]; rfl

/-- An initialisation sets the trace level together with the lifecycle. -/
theorem untraced_handleInitialise (hs : s.trace = .off) (params : Json) :
    ((handleInitialise caps params).after s).2.lifecycle = .uninitialized →
      ((handleInitialise caps params).after s).2.trace = .off := by
  rcases handleInitialise_cases caps params s with ⟨f, h⟩ | ⟨root, folders, trace, h⟩
  · rw [h]
    exact fun _ => hs
  · have htrace := trace_perform (caps.initialise root folders
      (params.fieldOrNull "initializationOptions")) s
    rw [h]
    cases hperform : (perform (caps.initialise root folders
        (params.fieldOrNull "initializationOptions"))).after s with
    | mk result t =>
      rw [hperform] at htrace
      cases result with
      | ok id => exact nofun
      | error f => exact fun _ => htrace.trans hs

/-- A session does not become uninitialised again by a method. -/
theorem initialised_handle (hs : s.lifecycle ≠ .uninitialized) (m : Method) (params : Json) :
    ((handle caps m params).after s).2.lifecycle ≠ .uninitialized := by
  have hlasting : IsLasting fun t : Session γ => t.lifecycle ≠ .uninitialized :=
    { send := fun _ _ _ h => h, hold := fun _ _ _ _ h => h, call := fun _ _ h => h
      failing := fun _ _ h => h, trace := fun _ _ h => h, leave := fun _ _ _ h _ => h }
  have hperform {α : Type} (a : Action γ α) :
      Preserves (fun t : Session γ => t.lifecycle ≠ .uninitialized) (perform a) := by
    intro s hs
    rw [lifecycle_perform]
    exact hs
  exact handle_preserves_of_deed hlasting caps (fun a _ => hperform a) (fun _ _ _ => hperform _) s
    hs

/-- What is dispatched sets the trace level only in a session that it leaves initialised. -/
theorem untraced_dispatch (caps : Capabilities γ)
    (hs : s.lifecycle = .uninitialized → s.trace = .off) (method : String) (params : Json)
    (isRequest : Bool) :
    ((dispatch caps method params isRequest).after s).2.lifecycle = .uninitialized →
      ((dispatch caps method params isRequest).after s).2.trace = .off := by
  rcases exists_dispatch caps method params isRequest s.lifecycle with
    ⟨x, -, -, hdispatch⟩ | ⟨hadmits, m, hname, hdispatch⟩
  · rw [hdispatch s rfl]
    exact hs
  · rw [hdispatch s rfl]
    by_cases hl : s.lifecycle = .uninitialized
    · obtain rfl := name_of_ofName? hname
      rw [hl] at hadmits
      cases m with
      | initialise => exact untraced_handleInitialise (hs hl) params
      | exit => exact nofun
      | _ => exact absurd hadmits (by decide)
    · intro hlater
      exact absurd hlater (initialised_handle hl m params)

/-! ## Sessions are ready -/

/-- A session that is ready is ready again after each event. -/
theorem IsReady.step (hs : s.IsReady) {e : Event} {u : Unit} (h : step caps e s = .ok u t) :
    t.IsReady := by
  cases he : eventMethod? e with
  | none =>
    have hcore := core_step_unhandled caps he s
    rw [after_of_ok h] at hcore
    refine ⟨isIdle_step_unhandled he hs.toIsIdle h, fun hl => ?_⟩
    rw [trace_eq_of_core hcore]
    exact hs.untraced (lifecycle_eq_of_core hcore ▸ hl)
  | some method =>
    obtain ⟨v, -, -, hstep⟩ := step_handled caps he
    rw [hstep] at h
    obtain ⟨x, s₁, hdispatch, rfl, -⟩ := process_eq_ok h
    refine ⟨⟨rfl, rfl⟩, ?_⟩
    have huntraced := untraced_dispatch caps
      (s := s.begun method (paramsOf v) (v.field? "id").isSome) hs.untraced method (paramsOf v)
      (v.field? "id").isSome
    rw [hdispatch] at huntraced
    exact huntraced

theorem Ongoing.isReady (h : Ongoing caps s) : s.IsReady := by
  induction h with
  | start host => exact ⟨⟨rfl, rfl⟩, fun _ => rfl⟩
  | step h hexited hstep ih =>
    have hcleared : IsReady (cleared _) := ⟨⟨ih.dispatching, ih.deferred⟩, ih.untraced⟩
    exact hcleared.step hstep

/-! ## What is taken up -/

/-- Nothing but an exit and an initialisation is accepted before the initialisation. -/
theorem after_dispatch_uninitialized (caps : Capabilities γ) (hs : s.lifecycle = .uninitialized)
    {method : String} (hinit : method ≠ Method.initialise.name)
    (hexit : method ≠ Method.exit.name) (params : Json) (isRequest : Bool) :
    (dispatch caps method params isRequest).after s =
      (if isRequest then
        .error (.refused (.of .serverNotInitialized "Server has not been initialized."))
      else .ok .null, s) := by
  unfold dispatch accepts
  simp only [after_bind, after_get, if_neg hexit, hs, if_neg hinit]
  cases isRequest <;> rfl

/-- Before the initialisation a message is handled by answering it only. -/
theorem process_uninitialized (caps : Capabilities γ) (hs : s.IsReady)
    (hl : s.lifecycle = .uninitialized) {method : String} (hinit : method ≠ Method.initialise.name)
    (hexit : method ≠ Method.exit.name) (id : Option Json) (params : Json) :
    process caps id method params s =
      match id with
      | none => .ok () s
      | some id =>
        send (.failure id (.of .serverNotInitialized "Server has not been initialized.")) s := by
  have htell (message : String) (verbose : Option String) :
      (Serving.tell message verbose : Serving γ Unit) s = .ok () s := by
    simp only [Serving.tell, bind, EStateM.bind, get_apply, hs.untraced hl]
    rfl
  obtain ⟨lifecycle, trace, shutdownRequested, dispatching, deferred, outbox, calls, failing, host⟩ :=
    s
  obtain ⟨rfl, rfl⟩ : dispatching = false ∧ deferred = [] := ⟨hs.dispatching, hs.deferred⟩
  simp only [process, bind, EStateM.bind, htell, update_apply, eventually, outcome_eq,
    after_dispatch_uninitialized caps (s := ⟨lifecycle, trace, shutdownRequested, true, [], outbox,
      calls, failing, host⟩) hl hinit hexit]
  cases id with
  | none => rfl
  | some id => cases failing <;> rfl

/-- Nothing but an exit and an initialisation acts before the initialisation, whatever the
capabilities are: a notification of anything else leaves the session as it is, and a request is
refused without changing anything. -/
theorem Ongoing.receive_uninitialized (h : Ongoing caps s) (hl : s.lifecycle = .uninitialized)
    {v : Json} {method : String} (hv : methodOf? v = some method)
    (hinit : method ≠ Method.initialise.name) (hexit : method ≠ Method.exit.name)
    (caps' : Capabilities γ) :
    (v.field? "id" = none → receive caps' v s = .ok () s) ∧
      ∀ id, v.field? "id" = some id → receive caps' v s =
        send (.failure id (.of .serverNotInitialized "Server has not been initialized.")) s := by
  have hprocess := process_uninitialized caps' h.isReady hl hinit hexit (v.field? "id") (paramsOf v)
  rw [receive_eq_process caps' hv, hprocess]
  refine ⟨fun hid => ?_, fun id hid => ?_⟩
  · rw [hid]
  · rw [hid]

/-- Capabilities that break down while they prepare. -/
def helpless : Capabilities (List Call) :=
  .scripted ⟨"helpless", none⟩ { initialise := { breakdown := some "no engine" } }

/-- The session after an initialisation during which the capabilities broke down. -/
def unprepared : Session (List Call) :=
  ((step helpless (.arrival (.message (requestOf 1 .initialise (.obj []))))).after { host := [] }).2

/-- After an initialisation that failed, a document that is closed is not noticed, and a request is
still refused. -/
theorem receive_uninitialized_unprepared :
    unprepared.lifecycle = .uninitialized ∧
      receive helpless (notificationOf .didClose .null) unprepared = .ok () unprepared ∧
      receive helpless closingRequest unprepared = send (.failure (.int 7)
        (.of .serverNotInitialized "Server has not been initialized.")) unprepared := by
  have hongoing : Ongoing helpless unprepared :=
    .step (.start []) (by decide) (step_of_isOk (by rfl))
  have hl : unprepared.lifecycle = .uninitialized := rfl
  have hinit : Method.didClose.name ≠ Method.initialise.name := by decide
  have hexit : Method.didClose.name ≠ Method.exit.name := by decide
  exact ⟨hl, (hongoing.receive_uninitialized hl rfl hinit hexit helpless).1 rfl,
    (hongoing.receive_uninitialized hl rfl hinit hexit helpless).2 _ rfl⟩

-- An initialisation is taken up as a notification also, and then it is not answered.
example :
    ((receive (.bare ⟨"bare", none⟩) (notificationOf .initialise (.obj []))).after { host := () }).2 =
      { lifecycle := .initialized, host := () } := rfl

end Session

end LanguageServer
