import LanguageServer.Proofs.Session.Discipline

/-!
# What sending leaves alone

Sending and holding back are about the channel.  The rest of a session, its core, changes
only where a message is dispatched, and a message is handled to its end unless the channel
fails.

## Main definitions

* `Session.core` — a session without what it exchanges.
* `Serving.FailsAsChannel` — an operation fails with faults of the channel only.

## Main statements

* `Session.core_process` — a message changes the core as its dispatch does.
* `Session.step_eq_error` — what an event can fail with.
* `Session.handleInitialise_cases` — what an initialisation does.
-/

namespace LanguageServer

variable {γ α β : Type}

/-- The session without what it exchanges with the client and with engines. -/
def Session.core (s : Session γ) : Session γ :=
  { lifecycle := s.lifecycle, trace := s.trace, shutdownRequested := s.shutdownRequested
    host := s.host }

namespace Session

variable {s t : Session γ}

theorem lifecycle_eq_of_core (h : t.core = s.core) : t.lifecycle = s.lifecycle :=
  show t.core.lifecycle = s.core.lifecycle by rw [h]

theorem shutdownRequested_eq_of_core (h : t.core = s.core) :
    t.shutdownRequested = s.shutdownRequested :=
  show t.core.shutdownRequested = s.core.shutdownRequested by rw [h]

theorem host_eq_of_core (h : t.core = s.core) : t.host = s.host :=
  show t.core.host = s.core.host by rw [h]

end Session

namespace Serving

/-! ## Sending -/

@[simp] theorem core_send (m : Outbound) (s : Session γ) :
    ((send m).after s).2.core = s.core := by
  cases h : s.failing <;> simp [after, send, h, Session.core]

@[simp] theorem core_sendAll (l : List Outbound) (s : Session γ) :
    ((sendAll l).after s).2.core = s.core := by
  induction l generalizing s with
  | nil => rfl
  | cons m rest ih =>
    have hsend := core_send m s
    rw [sendAll, after_bind]
    cases h : (send m).after s with
    | mk result t =>
      rw [h] at hsend
      cases result with
      | ok u => exact (ih t).trans hsend
      | error e => exact hsend

@[simp] theorem core_tell (message : String) (verbose : Option String) (s : Session γ) :
    ((tell message verbose).after s).2.core = s.core := by
  unfold tell
  simp only [after_bind, after_get]
  cases s.trace with
  | off => rfl
  | messages => exact core_send _ s
  | verbose => exact core_send _ s

/-- A channel that does not fail carries every message. -/
theorem after_send_ok (m : Outbound) {s : Session γ} (hs : s.failing = 0) :
    ∃ t, (send m).after s = (.ok (), t) := by
  simp [after, send, hs]

theorem after_tell_ok (message : String) (verbose : Option String) {s : Session γ}
    (hs : s.failing = 0) : ∃ t, (tell message verbose).after s = (.ok (), t) := by
  unfold tell
  simp only [after_bind, after_get]
  cases s.trace with
  | off => exact ⟨s, rfl⟩
  | messages => exact after_send_ok _ hs
  | verbose => exact after_send_ok _ hs

@[simp] theorem core_hear (e : Effect) (s : Session γ) :
    ((hear e).after s).2.core = s.core := by
  cases e with
  | log level message => exact core_send _ s
  | trace message verbose => exact core_tell message verbose s
  | engine call => rfl
  | publish uri version diagnostics =>
    show ((push uri version diagnostics).after s).2.core = _
    unfold push
    split
    · rfl
    · simp only [after_bind, after_get]
      split
      · rfl
      · exact core_send _ s

@[simp] theorem core_flush (s : Session γ) : (flush.after s).2.core = s.core := by
  simp only [flush, after_bind, after_get, after_update]
  exact core_sendAll _ _

/-- Performing an action changes the core only in the state of the capabilities. -/
theorem core_perform (a : Action γ α) (s : Session γ) :
    ((perform a).after s).2.core = { s.core with host := ((perform a).after s).2.host } := by
  have hall (l : List (Effect × γ)) (s : Session γ) : (deliverAll hear s l).1.core = s.core := by
    induction l generalizing s with
    | nil => rfl
    | cons entry rest ih =>
      have hhear := core_hear entry.1 s
      rw [deliverAll_cons]
      cases h : (hear entry.1).after s with
      | mk result t =>
        rw [h] at hhear
        cases result with
        | ok u => exact (ih t).trans hhear
        | error e => exact hhear
  rw [after_perform]
  have hcore : ((a.run s.host).deliver hear s).1.core = s.core := by
    have := hall (a.run s.host).said s
    unfold Run.deliver
    cases h : deliverAll hear s (a.run s.host).said with
    | mk t failure =>
      rw [h] at this
      cases failure <;> exact this
  rw [← hcore]
  rfl

theorem shutdownRequested_perform (a : Action γ α) (s : Session γ) :
    ((perform a).after s).2.shutdownRequested = s.shutdownRequested :=
  show ((perform a).after s).2.core.shutdownRequested = _ by rw [core_perform]; rfl

/-! ## Failing with the channel -/

/-- The operation fails with faults of the channel only. -/
def FailsAsChannel (x : Serving γ α) : Prop :=
  ∀ s f, (x.after s).1 = .error f → ∃ reason, f = .channel reason

namespace FailsAsChannel

theorem pure (a : α) : FailsAsChannel (Pure.pure a : Serving γ α) := fun _ _ h => nomatch h

theorem update (f : Session γ → Session γ) : FailsAsChannel (Serving.update f) :=
  fun _ _ h => nomatch h

theorem channel (reason : String) :
    FailsAsChannel (MonadExcept.throw (.channel reason) : Serving γ α) :=
  fun _ _ h => ⟨reason, (Except.error.inj h).symm⟩

theorem bind {x : Serving γ α} {f : α → Serving γ β} (hx : FailsAsChannel x)
    (hf : ∀ a, FailsAsChannel (f a)) : FailsAsChannel (x >>= f) := by
  intro s g h
  rw [after_bind] at h
  cases hx' : x.after s with
  | mk result t =>
    rw [hx'] at h
    cases result with
    | ok a => exact hf a t g h
    | error e => exact hx s g (by rw [hx']; exact congrArg Except.error (Except.error.inj h))

theorem get_bind {f : Session γ → Serving γ α} (hf : ∀ s, FailsAsChannel (f s)) :
    FailsAsChannel (get >>= f) :=
  .bind (fun _ _ h => nomatch h) hf

theorem eventually {x : Serving γ α} {f : Session γ → Session γ} (hx : FailsAsChannel x) :
    FailsAsChannel (Serving.eventually x f) := by
  intro s g h
  rw [after_eventually] at h
  exact hx s g h

/-- An operation whose fault is yielded does not fail. -/
theorem outcome (x : Serving γ α) : FailsAsChannel (Serving.outcome x) := by
  intro s g h
  rw [after_outcome] at h
  cases h

theorem send (m : Outbound) : FailsAsChannel (Serving.send (γ := γ) m) := by
  intro s f h
  cases hs : s.failing with
  | zero => simp [after, Serving.send, hs] at h
  | succ n =>
    simp only [after, Serving.send, hs, Except.error.injEq] at h
    exact ⟨_, h.symm⟩

theorem sendAll (l : List Outbound) : FailsAsChannel (Serving.sendAll (γ := γ) l) := by
  induction l with
  | nil => exact pure ()
  | cons m rest ih => exact bind (send m) fun _ => ih

theorem tell (message : String) (verbose : Option String) :
    FailsAsChannel (Serving.tell (γ := γ) message verbose) := by
  refine get_bind fun s => ?_
  split
  · exact pure ()
  · exact send _
  · exact send _

theorem flush : FailsAsChannel (Serving.flush (γ := γ)) :=
  get_bind fun _ => bind (update _) fun _ => sendAll _

end FailsAsChannel

end Serving

namespace Session

open Serving

theorem core_respond (id : Option Json) (method : String) (x : Except Fault Json) (s : Session γ) :
    ((respond id method x).after s).2.core = s.core := by
  cases x with
  | ok value =>
    cases id with
    | some id => exact core_send _ s
    | none => rfl
  | error f =>
    cases f with
    | channel reason => cases id <;> rfl
    | _ => cases id <;> exact core_send _ s

theorem failsAsChannel_respond (id : Option Json) (method : String) (x : Except Fault Json) :
    FailsAsChannel (respond (γ := γ) id method x) := by
  cases x with
  | ok value =>
    cases id with
    | some id => exact .send _
    | none => exact .pure ()
  | error f =>
    cases f with
    | channel reason => cases id <;> exact .channel reason
    | _ => cases id <;> exact .send _

/-! ## Messages -/

/-- A message changes the core as its dispatch does, or the channel fails before that. -/
theorem core_process (caps : Capabilities γ) (id : Option Json) (method : String) (params : Json)
    (s : Session γ) :
    (s.failing ≠ 0 ∧ ((process caps id method params).after s).2.core = s.core) ∨
      ∃ t, t.core = s.core ∧ ((process caps id method params).after s).2.core =
        ((dispatch caps method params id.isSome).after t).2.core := by
  have htell := core_tell (receivedMessage method id.isSome)
    (some (String.ofList (params.print .spaced))) s
  unfold process
  rw [after_bind]
  cases h : (tell (receivedMessage method id.isSome)
      (some (String.ofList (params.print .spaced)))).after s with
  | mk result t =>
    rw [h] at htell
    cases result with
    | error e =>
      refine .inl ⟨fun hfailing => ?_, htell⟩
      obtain ⟨t', ht'⟩ := after_tell_ok (receivedMessage method id.isSome)
        (some (String.ofList (params.print .spaced))) hfailing
      rw [h] at ht'
      cases ht'
    | ok u =>
      refine .inr ⟨{ t with dispatching := true }, htell, ?_⟩
      simp only [after_bind, after_update, after_eventually, after_outcome]
      cases hdispatch : (dispatch caps method params id.isSome).after
          { t with dispatching := true } with
      | mk x t₁ =>
        have hrespond := core_respond id method x t₁
        cases h' : (respond id method x).after t₁ with
        | mk result t₂ =>
          rw [h'] at hrespond
          simp only
          cases result with
          | error e => exact hrespond
          | ok u => exact (core_flush _).trans hrespond

theorem failsAsChannel_receive (caps : Capabilities γ) (v : Json) :
    FailsAsChannel (receive caps v) := by
  cases hmethod : methodOf? v with
  | some method =>
    rw [receive_eq_process caps hmethod]
    exact .bind (.tell _ _) fun _ => .bind (.update _) fun _ =>
      .bind (.eventually (.bind (.outcome _) fun x => failsAsChannel_respond _ _ x)) fun _ => .flush
  | none =>
    rcases receive_unhandled caps hmethod with ⟨-, hreceive⟩ | ⟨-, id, e, hreceive⟩
    · rw [hreceive]
      exact .pure ()
    · rw [hreceive]
      exact .send _

/-- An event without a method that is handled leaves the core alone. -/
theorem core_step_unhandled (caps : Capabilities γ) {e : Event} (he : eventMethod? e = none)
    (s : Session γ) : ((step caps e).after s).2.core = s.core := by
  cases e with
  | remark e => exact core_hear e s
  | complaint id error => exact core_send _ s
  | failSends n => rfl
  | arrival r =>
    cases r with
    | message v =>
      rcases receive_unhandled caps (v := v) he with ⟨-, hreceive⟩ | ⟨-, id, e, hreceive⟩
      · rw [show step caps (.arrival (.message v)) = _ from hreceive]
        rfl
      · rw [show step caps (.arrival (.message v)) = _ from hreceive]
        exact core_send _ s
    | malformed reason => exact core_send _ s
    | _ => rfl

/-- An event fails with the channel, or it leaves the core alone. -/
theorem step_eq_error {caps : Capabilities γ} {e : Event} {s t : Session γ} {f : Fault}
    (h : step caps e s = .error f t) : (∃ reason, f = .channel reason) ∨ t.core = s.core := by
  have hafter : (step caps e).after s = (.error f, t) := by
    unfold after
    rw [h]
  cases he : eventMethod? e with
  | none =>
    have := core_step_unhandled caps he s
    rw [hafter] at this
    exact .inr this
  | some method =>
    obtain ⟨v, rfl, -, -⟩ := step_handled caps he
    exact .inl (failsAsChannel_receive caps v s f (congrArg Prod.fst hafter))

/-! ## Initialisations -/

/-- What the parameters of an initialisation are read as depends on the trace level only.  If that
succeeds, the initialisation does what the capabilities do; and if they succeed, the session is
initialised. -/
theorem exists_reading (caps : Capabilities γ) (params : Json) :
    ∃ read : Trace → Except Fault (Json × List WorkspaceFolder × Trace),
      (∀ s, (handleInitialise caps params).after s =
        match read s.trace with
        | .error f => (.error f, s)
        | .ok (root, folders, trace) =>
          match (perform (caps.initialise root folders
              (params.fieldOrNull "initializationOptions"))).after s with
          | (.ok id, t) => (.ok (greeting id), { t with lifecycle := .initialized, trace })
          | (.error f, t) => (.error f, t)) ∧
      (∀ trace reason, read trace ≠ .error (.channel reason)) ∧
      ∀ (s : Session γ) x, read s.trace = .ok x →
        (rootOf params).after s = (.ok x.1, s) ∧ (foldersOf params).after s = (.ok x.2.1, s) := by
  cases params with
  | obj members =>
    obtain ⟨root, hroot, hrootSpares⟩ := isReading_rootOf (γ := γ) (.obj members)
    obtain ⟨folders, hfolders, hfoldersSpares⟩ := isReading_foldersOf (γ := γ) (.obj members)
    obtain ⟨trace, htrace, htraceSpares⟩ := isReading_traceOf (γ := γ) (.obj members)
    refine ⟨fun t =>
      match root t, folders t, trace t with
      | .error e, _, _ => .error e
      | .ok _, .error e, _ => .error e
      | .ok _, .ok _, .error e => .error e
      | .ok root, .ok folders, .ok trace => .ok (root, folders, trace),
      fun s => ?_, fun t reason h => ?_, fun s x hx => ?_⟩
    · simp only [handleInitialise, after_reading_bind hroot, after_reading_bind hfolders,
        after_reading_bind htrace, after_bind]
      cases root s.trace with
      | error e => rfl
      | ok root =>
        cases folders s.trace with
        | error e => rfl
        | ok folders =>
          cases trace s.trace with
          | error e => rfl
          | ok trace =>
            simp only
            cases (perform (caps.initialise root folders
                ((Json.obj members).fieldOrNull "initializationOptions"))).after s with
            | mk result t => cases result <;> rfl
    · simp only at h
      split at h
      · next h' =>
        exact hrootSpares t reason (h'.trans (congrArg Except.error (Except.error.inj h)))
      · next h' =>
        exact hfoldersSpares t reason (h'.trans (congrArg Except.error (Except.error.inj h)))
      · next h' =>
        exact htraceSpares t reason (h'.trans (congrArg Except.error (Except.error.inj h)))
      · cases h
    · simp only at hx
      split at hx
      · cases hx
      · cases hx
      · cases hx
      · next hroot' hfolders' _ =>
        obtain rfl := Except.ok.inj hx
        exact ⟨(hroot s).trans (by rw [hroot']), (hfolders s).trans (by rw [hfolders'])⟩
  | _ =>
    refine ⟨fun _ => .error (.refused (.of .invalidParams "initialize expects an object.")),
      fun s => rfl, fun _ _ h => (by cases h), fun _ _ h => (by cases h)⟩

/-- An initialisation fails before the capabilities are asked to prepare, or it does what they do,
and then the session is initialised. -/
theorem handleInitialise_cases (caps : Capabilities γ) (params : Json) (s : Session γ) :
    (∃ f, (handleInitialise caps params).after s = (.error f, s)) ∨
      ∃ root folders trace, (handleInitialise caps params).after s =
        match (perform (caps.initialise root folders
            (params.fieldOrNull "initializationOptions"))).after s with
        | (.ok id, t) => (.ok (greeting id), { t with lifecycle := .initialized, trace })
        | (.error f, t) => (.error f, t) := by
  obtain ⟨read, hread, -⟩ := exists_reading caps params
  rw [hread s]
  cases read s.trace with
  | error f => exact .inl ⟨f, rfl⟩
  | ok x => exact .inr ⟨x.1, x.2.1, x.2.2, rfl⟩

end Session

end LanguageServer
