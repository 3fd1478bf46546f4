import LanguageServer.Proofs.Action.Invariant
import LanguageServer.Session.Run

/-!
# How a message is handled

While a message is handled the session changes in few ways: an action of the
capabilities changes their state, logs and traces are sent, diagnostics are held back.
What is sent for a message is what was sent on the way, then the response, then what was
held back.

## Main definitions

* `Serving.after` — how an operation ends, and in which session.
* `Session.deed?`, `Session.IsDeed` — the action of the capabilities that a method asks for.
* `Session.begun`, `Session.finished` — the session before and after a message is dispatched.

## Main statements

* `Serving.perform_cases` — where an action of the capabilities ends.
* `Session.dispatch_delegated` — methods that ask for an action do nothing but perform it.
* `Session.process_eq_ok` — what is sent for a message.
-/

namespace LanguageServer

namespace Serving

variable {γ α β : Type}

/-- How an operation ends, and in which session. -/
def after (x : Serving γ α) (s : Session γ) : Except Fault α × Session γ :=
  match x s with
  | .ok a s' => (.ok a, s')
  | .error e s' => (.error e, s')

theorem after_of_ok {x : Serving γ α} {s s' : Session γ} {a : α} (h : x s = .ok a s') :
    x.after s = (.ok a, s') := by
  unfold after
  rw [h]

theorem outcome_eq (x : Serving γ α) (s : Session γ) :
    outcome x s = .ok (x.after s).1 (x.after s).2 := by
  unfold outcome after
  cases x s <;> rfl

@[simp] theorem after_pure (a : α) (s : Session γ) :
    (pure a : Serving γ α).after s = (.ok a, s) := rfl

@[simp] theorem after_throw (e : Fault) (s : Session γ) :
    (throw e : Serving γ α).after s = (.error e, s) := rfl

theorem get_apply (s : Session γ) : (get : Serving γ (Session γ)) s = .ok s s := rfl

theorem update_apply (f : Session γ → Session γ) (s : Session γ) : update f s = .ok () (f s) := rfl

@[simp] theorem after_update (f : Session γ → Session γ) (s : Session γ) :
    (update f).after s = (.ok (), f s) := rfl

theorem after_bind (x : Serving γ α) (f : α → Serving γ β) (s : Session γ) :
    (x >>= f).after s =
      match x.after s with
      | (.ok a, s') => (f a).after s'
      | (.error e, s') => (.error e, s') := by
  simp only [after, bind, EStateM.bind]
  cases x s <;> rfl

@[simp] theorem after_get (s : Session γ) :
    (get : Serving γ (Session γ)).after s = (.ok s, s) := rfl

theorem after_outcome (x : Serving γ α) (s : Session γ) :
    (outcome x).after s = (.ok (x.after s).1, (x.after s).2) := after_of_ok (outcome_eq x s)

theorem after_eventually (x : Serving γ α) (f : Session γ → Session γ) (s : Session γ) :
    (eventually x f).after s = ((x.after s).1, f (x.after s).2) := by
  cases h : x s <;> simp [eventually, after, h]

/-! ## Sending -/

theorem send_eq_ok {m : Outbound} {s s' : Session γ} {u : Unit} (h : send m s = .ok u s') :
    s' = { s with outbox := s.outbox ++ [m] } := by
  unfold send at h
  split at h
  · injection h with _ h
    exact h.symm
  · cases h

theorem sendAll_eq_ok {l : List Outbound} {s s' : Session γ} {u : Unit}
    (h : sendAll l s = .ok u s') : s' = { s with outbox := s.outbox ++ l } := by
  induction l generalizing s with
  | nil =>
    injection h with _ h
    rw [← h, List.append_nil]
  | cons m rest ih =>
    simp only [sendAll, bind, EStateM.bind] at h
    split at h
    · next _ s₁ hsend =>
      rw [send_eq_ok hsend] at h
      rw [ih h]
      simp
    · cases h

/-! ## Properties that operations preserve -/

/-- The operation keeps a property of the session, also if it fails. -/
def Preserves (I : Session γ → Prop) (x : Serving γ α) : Prop := ∀ s, I s → I (x.after s).2

namespace Preserves

variable {I : Session γ → Prop}

theorem pure (a : α) : Preserves I (Pure.pure a : Serving γ α) := fun _ h => h

theorem throw (e : Fault) : Preserves I (MonadExcept.throw e : Serving γ α) := fun _ h => h

theorem get : Preserves I (MonadState.get : Serving γ (Session γ)) := fun _ h => h

theorem update {f : Session γ → Session γ} (hf : ∀ s, I s → I (f s)) :
    Preserves I (Serving.update f) := hf

theorem bind {x : Serving γ α} {f : α → Serving γ β} (hx : Preserves I x)
    (hf : ∀ a, Preserves I (f a)) : Preserves I (x >>= f) := by
  intro s h
  have hs := hx s h
  rw [after_bind]
  cases hx' : x.after s with
  | mk result s' =>
    rw [hx'] at hs
    cases result with
    | ok a => exact hf a s' hs
    | error e => exact hs

end Preserves

/-- A property that sending and holding back keep, whatever is sent and held back, as long as it is
no response. -/
structure IsAmbient (I : Session γ → Prop) : Prop where
  send : ∀ s m, m.isResponse = false → I s → I { s with outbox := s.outbox ++ [m] }
  hold : ∀ s uri version diagnostics, I s →
    I { s with deferred := s.deferred ++ [.publish uri version diagnostics] }
  call : ∀ s calls, I s → I { s with calls }
  failing : ∀ s n, I s → I { s with failing := n }

/-- A property that also a change of the trace level keeps, and the session's going on in its
lifecycle. -/
structure IsLasting (I : Session γ → Prop) : Prop extends IsAmbient I where
  trace : ∀ s trace, I s → I { s with trace }
  leave : ∀ s lifecycle shutdownRequested, lifecycle ≠ .uninitialized → I s →
    I { s with lifecycle, shutdownRequested }

variable {I : Session γ → Prop}

theorem send_preserves (hI : IsAmbient I) {m : Outbound} (hm : m.isResponse = false) :
    Preserves I (send m) := by
  intro s h
  cases hf : s.failing with
  | zero => simpa [after, send, hf] using hI.send s m hm h
  | succ n => simpa [after, send, hf] using hI.failing s n h

theorem tell_preserves (hI : IsAmbient I) (message : String) (verbose : Option String) :
    Preserves I (tell message verbose) := by
  refine .bind .get fun s => ?_
  split
  · exact .pure ()
  · exact send_preserves hI rfl
  · exact send_preserves hI rfl

theorem hear_preserves (hI : IsAmbient I) (e : Effect) : Preserves I (hear e) := by
  cases e with
  | log level message => exact send_preserves hI rfl
  | trace message verbose => exact tell_preserves hI message verbose
  | engine call => exact .update fun s h => hI.call s _ h
  | publish uri version diagnostics =>
    show Preserves I (push uri version diagnostics)
    unfold push
    split
    · exact .throw _
    · refine .bind .get fun s => ?_
      split
      · exact .update fun s h => hI.hold s uri version diagnostics h
      · exact send_preserves hI rfl

/-! ## Performing actions -/

theorem after_perform (a : Action γ α) (s : Session γ) :
    (perform a).after s =
      (((a.run s.host).deliver hear s).2.1,
        { ((a.run s.host).deliver hear s).1 with host := ((a.run s.host).deliver hear s).2.2 }) := by
  unfold after perform
  cases h : (a.run s.host).deliver hear s with
  | mk s' d =>
    obtain ⟨result, host⟩ := d
    cases result <;> rfl

theorem deliverAll_preserves {σ : Type} (hI : IsAmbient I) (l : List (Effect × σ)) (s : Session γ)
    (h : I s) : I (deliverAll hear s l).1 := by
  induction l generalizing s with
  | nil => exact h
  | cons entry rest ih =>
    have hs := hear_preserves hI entry.1 s h
    unfold deliverAll
    unfold after at hs
    cases hhear : hear entry.1 s with
    | ok u s' =>
      rw [hhear] at hs
      exact ih s' hs
    | error e s' =>
      rw [hhear] at hs
      exact hs

/-- Performing an action keeps what is kept wherever the action can stop. -/
theorem perform_preserves (hI : IsAmbient I) {a : Action γ α} {J : γ → Prop}
    (ha : a.Steady (fun _ => True) J) (hJ : ∀ s, I s → J s.host)
    (hhost : ∀ s host, I s → J host → I { s with host }) : Preserves I (perform a) := by
  intro s h
  rw [after_perform]
  obtain ⟨hstops, hend⟩ := ha s.host (hJ s h)
  have hleft : J ((a.run s.host).deliver hear s).2.2 := by
    rcases Run.deliver_cases hear (a.run s.host) s with hd | ⟨entry, hmem, _, _, _, _, hd⟩
    · rw [hd]
      exact hend
    · rw [hd]
      exact hstops entry hmem trivial
  refine hhost _ _ ?_ hleft
  have hall := deliverAll_preserves hI (a.run s.host).said s h
  unfold Run.deliver
  cases hd : deliverAll hear s (a.run s.host).said with
  | mk s' failure =>
    rw [hd] at hall
    cases failure <;> exact hall

theorem lifecycle_perform (a : Action γ α) (s : Session γ) :
    ((perform a).after s).2.lifecycle = s.lifecycle := by
  have hambient : IsAmbient fun t : Session γ => t.lifecycle = s.lifecycle :=
    ⟨fun _ _ _ h => h, fun _ _ _ _ h => h, fun _ _ h => h, fun _ _ h => h⟩
  have hany : a.Steady (fun _ => True) fun _ => True := fun _ _ => ⟨fun _ _ _ => trivial, trivial⟩
  exact perform_preserves hambient hany (fun _ _ => trivial) (fun _ _ h _ => h) s rfl

/-- Hearing fails only with the channel, or because of a version that cannot be published. -/
theorem hear_eq_error {e : Effect} {s s' : Session γ} {f : Fault} (h : hear e s = .error f s') :
    (∃ reason, f = .channel reason) ∨ e.isPush = true ∧ ∃ v, f = .versionRange v := by
  have hsend : ∀ {m : Outbound} {s : Session γ}, send m s = .error f s' →
      ∃ reason, f = .channel reason := by
    intro m s h
    unfold send at h
    split at h
    · cases h
    · injection h with h _
      exact ⟨_, h.symm⟩
  cases e with
  | log level message => exact .inl (hsend h)
  | trace message verbose =>
    left
    simp only [hear, Serving.tell, bind, EStateM.bind, get_apply] at h
    cases ht : s.trace <;> simp only [ht] at h
    · cases h
    · exact hsend h
    · exact hsend h
  | engine call => cases h
  | publish uri version diagnostics =>
    cases hv : version.filter (!Params.isVersion ·) with
    | some v =>
      simp only [hear, push, hv] at h
      injection h with h _
      exact .inr ⟨rfl, v, h.symm⟩
    | none =>
      left
      simp only [hear, push, hv, bind, EStateM.bind, get_apply] at h
      split at h
      · cases h
      · exact hsend h

/-- An action that is performed ends as it does by itself, or where a publication is refused, or
the channel fails. -/
theorem perform_cases (a : Action γ α) (s : Session γ) :
    ((perform a).after s).1 = (a.run s.host).result ∧
        ((perform a).after s).2.host = (a.run s.host).state ∨
      (∃ reason, ((perform a).after s).1 = .error (.channel reason)) ∨
      ∃ entry ∈ (a.run s.host).said, entry.1.isPush = true ∧
        ((perform a).after s).2.host = entry.2 ∧
        ∃ v, ((perform a).after s).1 = .error (.versionRange v) := by
  rw [after_perform]
  rcases Run.deliver_cases hear (a.run s.host) s with h | ⟨entry, hmem, s₁, s₂, f, hhear, h⟩
  · rw [h]
    exact .inl ⟨rfl, rfl⟩
  · rw [h]
    rcases hear_eq_error hhear with ⟨reason, rfl⟩ | ⟨hpush, v, rfl⟩
    · exact .inr (.inl ⟨reason, rfl⟩)
    · exact .inr (.inr ⟨entry, hmem, hpush, rfl, v, rfl⟩)

/-- Passing on the result of an action under a function. -/
theorem after_perform_map (a : Action γ α) (f : α → β) (s : Session γ) :
    (do let x ← perform a; return f x : Serving γ β).after s =
      (perform (do let x ← a; return f x)).after s := by
  rw [after_bind, after_perform, after_perform, Action.run_bind_pure]
  unfold Run.deliver
  cases deliverAll hear s (a.run s.host).said with
  | mk s' failure =>
    cases failure with
    | some failure => rfl
    | none => cases (a.run s.host).result <;> rfl

end Serving

/-- Whether a method is passed on to the capabilities, which do all that it says. -/
def Method.isDelegated : Method → Bool
  | .initialised => true
  | .didChangeConfiguration => true
  | .didOpen => true
  | .didChange => true
  | .didClose => true
  | .definition => true
  | .documentHighlight => true
  | .references => true
  | _ => false

namespace Session

open Serving

variable {γ : Type}

/-- The action of the capabilities that a method asks for, with what is answered, if its parameters
are of the expected shape. -/
def deed? (caps : Capabilities γ) (m : Method) (params : Json) : Option (Action γ Json) :=
  match m with
  | .initialised => some do
    caps.initialised
    return .null
  | .didChangeConfiguration => some do
    caps.changeConfiguration (params.fieldOrNull "settings")
    return .null
  | .didOpen => (Params.opened? params).map fun d => do
    caps.documentOpened d
    return .null
  | .didChange =>
    match Params.changed params with
    | .ok (uri, version, changes) => some do
      caps.documentChanged uri version changes
      return .null
    | .error _ => none
  | .didClose => (Params.documentUri? params).map fun uri => do
    caps.documentClosed uri
    return .null
  | .definition => (Params.documentPosition? params).map fun q => do
    return listJson Location.toJson (← caps.definition q.1 q.2)
  | .documentHighlight => (Params.documentPosition? params).map fun q => do
    return listJson Highlight.toJson (← caps.highlights q.1 q.2)
  | .references => (Params.documentPosition? params).map fun q => do
    return listJson Location.toJson (← caps.references q.1 q.2)
  | _ => none

/-- A method that is not passed on asks nothing of the capabilities. -/
theorem deed?_eq_none (caps : Capabilities γ) {m : Method} (hm : m.isDelegated = false)
    (params : Json) : deed? caps m params = none := by
  cases m <;> first | rfl | cases hm

/-- A method that is passed on and what it asks of the capabilities, with what was read of its
parameters. -/
inductive IsDeed (caps : Capabilities γ) (params : Json) : Method → Action γ Json → Prop
  | initialised : IsDeed caps params .initialised (do caps.initialised; return .null)
  | settings : IsDeed caps params .didChangeConfiguration
      (do caps.changeConfiguration (params.fieldOrNull "settings"); return .null)
  | opened {d : Params.Opened} (h : Params.opened? params = some d) :
      IsDeed caps params .didOpen (do caps.documentOpened d; return .null)
  | changed {uri : Json} {version : Option Int} {changes : List ContentChange}
      (h : Params.changed params = .ok (uri, version, changes)) :
      IsDeed caps params .didChange (do caps.documentChanged uri version changes; return .null)
  | closed {uri : String} (h : Params.documentUri? params = some uri) :
      IsDeed caps params .didClose (do caps.documentClosed uri; return .null)
  | definition {uri : String} {p : Position}
      (h : Params.documentPosition? params = some (uri, p)) :
      IsDeed caps params .definition
        (do return listJson Location.toJson (← caps.definition uri p))
  | highlights {uri : String} {p : Position}
      (h : Params.documentPosition? params = some (uri, p)) :
      IsDeed caps params .documentHighlight
        (do return listJson Highlight.toJson (← caps.highlights uri p))
  | references {uri : String} {p : Position}
      (h : Params.documentPosition? params = some (uri, p)) :
      IsDeed caps params .references
        (do return listJson Location.toJson (← caps.references uri p))

theorem isDeed_of_deed? {caps : Capabilities γ} {m : Method} {params : Json} {a : Action γ Json}
    (h : deed? caps m params = some a) : IsDeed caps params m a := by
  cases m with
  | initialised => exact Option.some.inj h ▸ .initialised
  | didChangeConfiguration => exact Option.some.inj h ▸ .settings
  | didOpen =>
    obtain ⟨d, hd, rfl⟩ := Option.map_eq_some_iff.1 h
    exact .opened hd
  | didChange =>
    cases hchanged : Params.changed params with
    | error e => simp [deed?, hchanged] at h
    | ok change =>
      simp only [deed?, hchanged] at h
      exact Option.some.inj h ▸ .changed hchanged
  | didClose =>
    obtain ⟨uri, huri, rfl⟩ := Option.map_eq_some_iff.1 h
    exact .closed huri
  | definition =>
    obtain ⟨q, hq, rfl⟩ := Option.map_eq_some_iff.1 h
    exact .definition hq
  | documentHighlight =>
    obtain ⟨q, hq, rfl⟩ := Option.map_eq_some_iff.1 h
    exact .highlights hq
  | references =>
    obtain ⟨q, hq, rfl⟩ := Option.map_eq_some_iff.1 h
    exact .references hq
  | _ => cases h

/-- A method that is passed on performs the action that it asks for, or its parameters are
refused. -/
theorem handle_delegated (caps : Capabilities γ) {m : Method} (hm : m.isDelegated = true)
    (params : Json) :
    (∃ a, deed? caps m params = some a ∧
        ∀ s, (handle caps m params).after s = (perform a).after s) ∨
      deed? caps m params = none ∧
        ∃ e, ∀ s, (handle caps m params).after s = (.error (.refused e), s) := by
  cases m with
  | initialised => exact .inl ⟨_, rfl, after_perform_map _ (fun _ => Json.null)⟩
  | didChangeConfiguration => exact .inl ⟨_, rfl, after_perform_map _ (fun _ => Json.null)⟩
  | didOpen =>
    unfold handle deed?
    cases Params.opened? params with
    | none => exact .inr ⟨rfl, _, fun _ => rfl⟩
    | some d => exact .inl ⟨_, rfl, after_perform_map _ (fun _ => Json.null)⟩
  | didChange =>
    unfold handle deed?
    cases Params.changed params with
    | error e => exact .inr ⟨rfl, _, fun _ => rfl⟩
    | ok change => exact .inl ⟨_, rfl, after_perform_map _ (fun _ => Json.null)⟩
  | didClose =>
    unfold handle deed?
    cases Params.documentUri? params with
    | none => exact .inr ⟨rfl, _, fun _ => rfl⟩
    | some uri => exact .inl ⟨_, rfl, after_perform_map _ (fun _ => Json.null)⟩
  | definition =>
    unfold handle deed? queried
    cases Params.documentPosition? params with
    | none => exact .inr ⟨rfl, _, fun _ => rfl⟩
    | some q => exact .inl ⟨_, rfl, after_perform_map _ (listJson Location.toJson)⟩
  | documentHighlight =>
    unfold handle deed? queried
    cases Params.documentPosition? params with
    | none => exact .inr ⟨rfl, _, fun _ => rfl⟩
    | some q => exact .inl ⟨_, rfl, after_perform_map _ (listJson Highlight.toJson)⟩
  | references =>
    unfold handle deed? queried
    cases Params.documentPosition? params with
    | none => exact .inr ⟨rfl, _, fun _ => rfl⟩
    | some q => exact .inl ⟨_, rfl, after_perform_map _ (listJson Location.toJson)⟩
  | _ => cases hm

/-- What the client is told of a message that arrived, at its trace level. -/
def receipt (s : Session γ) (method : String) (params : Json) (isRequest : Bool) : List Outbound :=
  match s.trace with
  | .off => []
  | .messages => [.trace (receivedMessage method isRequest) none]
  | .verbose =>
    [.trace (receivedMessage method isRequest) (some (String.ofList (params.print .spaced)))]

/-- The session in which a message is dispatched. -/
def begun (s : Session γ) (method : String) (params : Json) (isRequest : Bool) : Session γ :=
  { s with outbox := s.outbox ++ s.receipt method params isRequest, dispatching := true }

/-- The response to a message, or the log entry for a notification that failed. -/
def response (id : Option Json) (method : String) : Except Fault Json → List Outbound
  | .ok value => (id.map fun id => .result id value).toList
  | .error (.refused e) =>
    match id with
    | some id => [.failure id e]
    | none => [.log .error ("Error handling " ++ method ++ ": " ++ e.message)]
  | .error f =>
    match id with
    | some id => [.failure id (.of .internalError ("Unhandled exception: " ++ f.description))]
    | none => [.log .error ("Error handling " ++ method ++ ": " ++ f.description)]

/-- The session after a message was dispatched: the response is sent, then what was held back. -/
def finished (s : Session γ) (sent : List Outbound) : Session γ :=
  { s with dispatching := false, deferred := [], outbox := s.outbox ++ sent ++ s.deferred }

theorem respond_eq_ok {id : Option Json} {method : String} {x : Except Fault Json}
    {s s' : Session γ} {u : Unit} (h : respond id method x s = .ok u s') :
    s' = { s with outbox := s.outbox ++ response id method x } ∧
      ∀ reason, x ≠ .error (.channel reason) := by
  cases x with
  | ok value =>
    refine ⟨?_, fun reason => by simp⟩
    cases id with
    | some id => exact send_eq_ok h
    | none =>
      injection h with _ h
      simp [response, ← h]
  | error f =>
    cases f with
    | channel reason => cases id <;> cases h
    | refused e => cases id <;> exact ⟨send_eq_ok h, fun reason => by simp⟩
    | _ => cases id <;> exact ⟨send_eq_ok h, fun reason => by simp⟩

theorem tell_received_eq_ok {s s' : Session γ} {u : Unit} {method : String} {params : Json}
    {isRequest : Bool} (h : tell (receivedMessage method isRequest)
      (some (String.ofList (params.print .spaced))) s = .ok u s') :
    s' = { s with outbox := s.outbox ++ s.receipt method params isRequest } := by
  simp only [Serving.tell, bind, EStateM.bind, get_apply] at h
  have hlevel : s.trace = .off ∨ s.trace = .messages ∨ s.trace = .verbose := by
    cases s.trace <;> simp
  rcases hlevel with ht | ht | ht <;> simp only [ht] at h
  · have hreceipt : s.receipt method params isRequest = [] := by simp [receipt, ht]
    injection h with _ h
    rw [hreceipt, List.append_nil, h]
  · have hreceipt : s.receipt method params isRequest =
        [.trace (receivedMessage method isRequest) none] := by simp [receipt, ht]
    rw [hreceipt]
    exact send_eq_ok h
  · have hreceipt : s.receipt method params isRequest =
        [.trace (receivedMessage method isRequest)
          (some (String.ofList (params.print .spaced)))] := by simp [receipt, ht]
    rw [hreceipt]
    exact send_eq_ok h

theorem flush_eq_ok {s s' : Session γ} {u : Unit} (h : flush s = .ok u s') :
    s' = { s with deferred := [], outbox := s.outbox ++ s.deferred } := by
  simp only [flush, bind, EStateM.bind, get_apply, update_apply] at h
  exact sendAll_eq_ok h

/-- If a message is processed, the channel did not fail, and the session is what the dispatch left,
with the response and what was held back sent. -/
theorem process_eq_ok {caps : Capabilities γ} {id : Option Json} {method : String} {params : Json}
    {s s' : Session γ} {u : Unit} (h : process caps id method params s = .ok u s') :
    ∃ x s₁, (dispatch caps method params id.isSome).after (s.begun method params id.isSome) = (x, s₁) ∧
      s' = s₁.finished (response id method x) ∧ ∀ reason, x ≠ .error (.channel reason) := by
  unfold process at h
  simp only [bind, EStateM.bind] at h
  cases htell : tell (receivedMessage method id.isSome)
      (some (String.ofList (params.print .spaced))) s with
  | error e s₀ => simp [htell] at h
  | ok u s₀ =>
    obtain rfl := tell_received_eq_ok htell
    simp only [htell] at h
    have hupdate : Serving.update (fun s : Session γ => { s with dispatching := true })
        { s with outbox := s.outbox ++ s.receipt method params id.isSome } =
        .ok () (s.begun method params id.isSome) := rfl
    simp only [hupdate, eventually, EStateM.bind, outcome_eq] at h
    cases hrespond : respond id method
        ((dispatch caps method params id.isSome).after (s.begun method params id.isSome)).1
        ((dispatch caps method params id.isSome).after (s.begun method params id.isSome)).2 with
    | error e s₂ => simp [hrespond] at h
    | ok u s₂ =>
      obtain ⟨rfl, hchannel⟩ := respond_eq_ok hrespond
      simp only [hrespond] at h
      exact ⟨_, _, rfl, flush_eq_ok h, hchannel⟩

/-! ## The lifecycle -/

/-- A message is accepted, or it is a notification that is dropped, or it is refused; what is
accepted is an exit, or an initialisation exactly if the session is not initialised. -/
theorem accepts_cases (method : String) (isRequest : Bool) (s : Session γ) :
    (accepts method isRequest).after s = (.ok true, s) ∧
        (method = Method.exit.name ∨
          (s.lifecycle = .uninitialized ↔ method = Method.initialise.name)) ∨
      isRequest = false ∧ (accepts method isRequest).after s = (.ok false, s) ∨
      ∃ e, (accepts method isRequest).after s = (.error (.refused e), s) := by
  have hget : (get : Serving γ (Session γ)).after s = (.ok s, s) := rfl
  unfold accepts
  rw [after_bind, hget]
  simp only
  by_cases hexit : method = Method.exit.name
  · simp only [if_pos hexit]
    exact .inl ⟨rfl, .inl hexit⟩
  · simp only [if_neg hexit]
    by_cases hinit : method = Method.initialise.name
    · cases hl : s.lifecycle <;> simp only [if_pos hinit]
      · exact .inl ⟨rfl, .inr (by simp [hinit])⟩
      · exact .inr (.inr ⟨_, rfl⟩)
      · cases isRequest
        · exact .inr (.inl ⟨rfl, rfl⟩)
        · exact .inr (.inr ⟨_, rfl⟩)
      · exact .inr (.inr ⟨_, rfl⟩)
    · cases hl : s.lifecycle <;> simp only [if_neg hinit]
      · cases isRequest
        · exact .inr (.inl ⟨rfl, rfl⟩)
        · exact .inr (.inr ⟨_, rfl⟩)
      · exact .inl ⟨rfl, .inr (by simp [hinit])⟩
      · cases isRequest
        · exact .inr (.inl ⟨rfl, rfl⟩)
        · exact .inr (.inr ⟨_, rfl⟩)
      · exact .inl ⟨rfl, .inr (by simp [hinit])⟩

theorem name_of_ofName? {method : String} {m : Method} (h : Method.ofName? method = some m) :
    method = m.name := by
  have := List.find?_some h
  simpa using (of_decide_eq_true this).symm

/-- A message that is accepted is handled by its method; else the session stays as it is, and the
message is dropped or refused. -/
theorem dispatch_cases (caps : Capabilities γ) (method : String) (params : Json) (isRequest : Bool)
    (s : Session γ) :
    (∃ m, Method.ofName? method = some m ∧
        (method = Method.exit.name ∨
          (s.lifecycle = .uninitialized ↔ method = Method.initialise.name)) ∧
        (dispatch caps method params isRequest).after s = (handle caps m params).after s) ∨
      isRequest = false ∧ (dispatch caps method params isRequest).after s = (.ok .null, s) ∨
      ∃ e, (dispatch caps method params isRequest).after s = (.error (.refused e), s) := by
  unfold dispatch
  rw [after_bind]
  rcases accepts_cases method isRequest s with ⟨haccept, hwhen⟩ | ⟨hrequest, hdrop⟩ | ⟨e, hrefuse⟩
  · simp only [haccept, if_true]
    cases Method.ofName? method with
    | some m => exact .inl ⟨m, rfl, hwhen, rfl⟩
    | none =>
      -- An unknown method is refused if an answer is waited for.
      cases isRequest with
      | true => exact .inr (.inr ⟨_, rfl⟩)
      | false => exact .inr (.inl ⟨rfl, rfl⟩)
  · simp only [hdrop]
    exact .inr (.inl ⟨hrequest, rfl⟩)
  · simp only [hrefuse]
    exact .inr (.inr ⟨e, rfl⟩)

/-- A message with a method that is passed on performs the action that it asks for, or it is
refused, or dropped. -/
theorem dispatch_delegated (caps : Capabilities γ) {method : String} {m : Method}
    (hm : Method.ofName? method = some m) (hdelegated : m.isDelegated = true) (params : Json)
    (isRequest : Bool) (s : Session γ) :
    (∃ a, deed? caps m params = some a ∧ s.lifecycle ≠ .uninitialized ∧
        (dispatch caps method params isRequest).after s = (perform a).after s) ∨
      isRequest = false ∧ (dispatch caps method params isRequest).after s = (.ok .null, s) ∨
      ∃ e, (dispatch caps method params isRequest).after s = (.error (.refused e), s) := by
  rcases dispatch_cases caps method params isRequest s with
    ⟨m', hm', hwhen, hhandle⟩ | hdrop | hrefuse
  · obtain rfl := Option.some.inj (hm.symm.trans hm')
    have hinitialised : s.lifecycle ≠ .uninitialized := by
      obtain rfl := name_of_ofName? hm
      rcases hwhen with hexit | hinit
      · cases m <;> simp [Method.isDelegated, Method.name] at hdelegated hexit
      · intro hl
        have := hinit.1 hl
        cases m <;> simp [Method.isDelegated, Method.name] at hdelegated this
    rcases handle_delegated caps hdelegated params with ⟨a, ha, hperform⟩ | ⟨-, e, hrefuse⟩
    · exact .inl ⟨a, ha, hinitialised, hhandle.trans (hperform s)⟩
    · exact .inr (.inr ⟨e, hhandle.trans (hrefuse s)⟩)
  · exact .inr (.inl hdrop)
  · exact .inr (.inr hrefuse)

/-- What every method keeps that may come to be handled is kept while a message is dispatched. -/
theorem dispatch_preserves_of_handle {I : Session γ → Prop} (caps : Capabilities γ) {method : String}
    {params : Json} (hI : ∀ m, Method.ofName? method = some m → Preserves I (handle caps m params))
    (isRequest : Bool) : Preserves I (dispatch caps method params isRequest) := by
  intro s h
  rcases dispatch_cases caps method params isRequest s with
    ⟨m, hm, -, hhandle⟩ | ⟨-, hdrop⟩ | ⟨e, hrefuse⟩
  · rw [hhandle]
    exact hI m hm s h
  · rw [hdrop]
    exact h
  · rw [hrefuse]
    exact h

/-- Methods that are not passed on keep what sending and the lifecycle keep. -/
theorem handle_preserves {I : Session γ → Prop} (hI : IsLasting I) (caps : Capabilities γ)
    {m : Method} (hdelegated : m.isDelegated = false) (hinit : m ≠ .initialise) (params : Json) :
    Preserves I (handle caps m params) := by
  cases m with
  | initialise => exact absurd rfl hinit
  | shutdown =>
    exact .bind (.update fun s h => hI.leave s _ _ (by decide) h) fun _ => .pure _
  | exit =>
    exact .bind (.update fun s h => hI.leave s _ s.shutdownRequested (by decide) h) fun _ => .pure _
  | setTrace =>
    show Preserves I (handleSetTrace params)
    unfold handleSetTrace
    split
    · split
      · exact .bind (.update fun s h => hI.trace s _ h) fun _ => .pure _
      · exact .throw _
    · exact .throw _
  | cancelRequest => exact .bind (tell_preserves hI.toIsAmbient _ _) fun _ => .pure _
  | _ => cases hdelegated

theorem rootOf_preserves (I : Session γ → Prop) (params : Json) : Preserves I (rootOf params) := by
  unfold rootOf
  repeat' split
  all_goals first | exact .pure _ | exact .throw _

theorem foldersOf_preserves (I : Session γ → Prop) (params : Json) :
    Preserves I (foldersOf params) := by
  unfold foldersOf
  simp only
  repeat' split
  all_goals first | exact .pure _ | exact .throw _

theorem traceOf_preserves (I : Session γ → Prop) (params : Json) : Preserves I (traceOf params) := by
  unfold traceOf
  split
  · exact .bind .get fun _ => .pure _
  · split
    · exact .pure _
    · exact .throw _

/-- An initialisation keeps what its preparation keeps. -/
theorem handleInitialise_preserves {I : Session γ → Prop} (hI : IsLasting I) (caps : Capabilities γ)
    (hprepare : ∀ root folders options,
      Preserves I (perform (caps.initialise root folders options))) (params : Json) :
    Preserves I (handleInitialise caps params) := by
  unfold handleInitialise
  split
  · refine .bind (rootOf_preserves I _) fun root => .bind (foldersOf_preserves I _) fun folders =>
      .bind (traceOf_preserves I _) fun trace => .bind (hprepare _ _ _) fun id =>
        .bind (.update fun s h => ?_) fun _ => .pure _
    exact hI.leave _ .initialized s.shutdownRequested (by decide) (hI.trace s trace h)
  · exact .throw _

/-- Handling a message keeps what sending and the lifecycle keep if that is kept by what the message
asks of the capabilities, and by the preparation. -/
theorem handle_preserves_of_deed {I : Session γ → Prop} (hI : IsLasting I) (caps : Capabilities γ)
    {m : Method} {params : Json}
    (hdeed : ∀ a, deed? caps m params = some a → Preserves I (perform a))
    (hprepare : ∀ root folders options,
      Preserves I (perform (caps.initialise root folders options))) :
    Preserves I (handle caps m params) := by
  cases hdelegated : m.isDelegated with
  | true =>
    intro s h
    rcases handle_delegated caps hdelegated params with ⟨a, ha, hperform⟩ | ⟨-, e, hrefuse⟩
    · rw [hperform s]
      exact hdeed a ha s h
    · rw [hrefuse s]
      exact h
  | false =>
    by_cases hinit : m = .initialise
    · subst hinit
      exact handleInitialise_preserves hI caps hprepare params
    · exact handle_preserves hI caps hdelegated hinit params

/-- What holds of the state of the capabilities has nothing to do with what is sent, nor with the
lifecycle. -/
theorem isLasting_host (J : γ → Prop) : IsLasting fun s : Session γ => J s.host where
  send _ _ _ h := h
  hold _ _ _ _ h := h
  call _ _ h := h
  failing _ _ h := h
  trace _ _ h := h
  leave _ _ _ _ h := h

theorem perform_preserves_host {J : γ → Prop} {a : Action γ α} (ha : a.Steady (fun _ => True) J) :
    Preserves (fun s : Session γ => J s.host) (perform a) :=
  perform_preserves (isLasting_host J).toIsAmbient ha (fun _ h => h) fun _ _ _ h => h

/-- A method that is not passed on changes the state of the capabilities by the preparation only. -/
theorem handle_own_preserves_host {caps : Capabilities γ} {m : Method} (hm : m.isDelegated = false)
    {J : γ → Prop} (hprepare : ∀ root folders options,
      (caps.initialise root folders options).Steady (fun _ => True) J) {params : Json} :
    Preserves (fun s : Session γ => J s.host) (handle caps m params) :=
  handle_preserves_of_deed (isLasting_host J) caps
    (fun a ha => by simp [deed?_eq_none caps hm] at ha)
    fun root folders options => perform_preserves_host (hprepare root folders options)

/-- Messages without a method that is passed on keep what their handling keeps. -/
theorem dispatch_preserves {I : Session γ → Prop} (hI : IsLasting I) (caps : Capabilities γ)
    {method : String} (hm : ∀ m, Method.ofName? method = some m → m.isDelegated = false)
    (hinit : method ≠ Method.initialise.name) (params : Json) (isRequest : Bool) :
    Preserves I (dispatch caps method params isRequest) := by
  refine dispatch_preserves_of_handle caps (fun m hname => ?_) isRequest
  have hne : m ≠ .initialise := by
    rintro rfl
    exact hinit (name_of_ofName? hname)
  exact handle_preserves hI caps (hm m hname) hne params

/-! ## Events -/

/-- The method of a message, if it has one and is handled. -/
def methodOf? : Json → Option String
  | .obj members =>
    match (Json.obj members).fieldOrNull "method" with
    | .str method =>
      if ((Json.obj members).field? "id").any (!isIdentifier ·) then none else some method
    | _ => none
  | _ => none

/-- The method of the message that arrives, if one does and is handled. -/
def eventMethod? : Event → Option String
  | .arrival (.message v) => methodOf? v
  | _ => none

theorem receive_eq_process (caps : Capabilities γ) {v : Json} {method : String}
    (h : methodOf? v = some method) :
    receive caps v = process caps (v.field? "id") method (paramsOf v) := by
  unfold methodOf? at h
  split at h
  · next members =>
    unfold receive
    simp only
    cases hmethod : (Json.obj members).fieldOrNull "method" with
    | str name =>
      simp only [hmethod] at h
      split at h
      · cases h
      · next hid =>
        obtain rfl := Option.some.inj h
        simp only [hid]
        rfl
    | _ => simp [hmethod] at h
  · cases h

/-- No response is held back. -/
def HoldsNoResponse (s : Session γ) : Prop := ∀ m ∈ s.deferred, m.isResponse = false

theorem isLasting_holdsNoResponse : IsLasting (HoldsNoResponse (γ := γ)) where
  send _ _ _ h := h
  hold _ _ _ _ h m hm := by
    rcases List.mem_append.1 hm with hm | hm
    · exact h m hm
    · obtain rfl := List.mem_singleton.1 hm
      rfl
  call _ _ h := h
  failing _ _ h := h
  trace _ _ h := h
  leave _ _ _ _ h := h

/-- No response was sent, and none is held back. -/
def HasNotResponded (s : Session γ) : Prop :=
  HoldsNoResponse s ∧ ∀ m ∈ s.outbox, m.isResponse = false

theorem isLasting_hasNotResponded : IsLasting (HasNotResponded (γ := γ)) where
  send _ m hm h := ⟨h.1, fun m' hm' => by
    rcases List.mem_append.1 hm' with hm' | hm'
    · exact h.2 m' hm'
    · obtain rfl := List.mem_singleton.1 hm'
      exact hm⟩
  hold s uri version diagnostics h :=
    ⟨isLasting_holdsNoResponse.hold s uri version diagnostics h.1, h.2⟩
  call _ _ h := h
  failing _ _ h := h
  trace _ _ h := h
  leave _ _ _ _ h := h

/-- The receipt of a message is no response. -/
theorem hasNotResponded_begun {s : Session γ} (h : HasNotResponded s) (method : String)
    (params : Json) (isRequest : Bool) : HasNotResponded (s.begun method params isRequest) := by
  refine ⟨h.1, fun m hm => ?_⟩
  rcases List.mem_append.1 hm with hm | hm
  · exact h.2 m hm
  · unfold receipt at hm
    split at hm
    · cases hm
    · obtain rfl := List.mem_singleton.1 hm
      rfl
    · obtain rfl := List.mem_singleton.1 hm
      rfl

/-- A result is sent only as the response to a message that was handled with it. -/
theorem result_of_mem_finished {s : Session γ} (h : HasNotResponded s) {id : Option Json}
    {method : String} {x : Except Fault Json} {request value : Json}
    (hm : .result request value ∈ (s.finished (response id method x)).outbox) :
    id = some request ∧ x = .ok value := by
  unfold finished at hm
  simp only [List.mem_append] at hm
  rcases hm with (hm | hm) | hm
  · exact absurd (h.2 _ hm) (by simp [Outbound.isResponse])
  · cases x with
    | ok v =>
      cases id with
      | none => cases hm
      | some i =>
        simp only [response, Option.map_some, Option.toList_some, List.mem_singleton,
          Outbound.result.injEq] at hm
        exact ⟨by rw [hm.1], by rw [hm.2]⟩
    | error f => cases f <;> cases id <;> simp [response] at hm
  · exact absurd (h.1 _ hm) (by simp [Outbound.isResponse])

/-- Performing an action sends no response. -/
theorem hasNotResponded_perform {α : Type} (a : Action γ α) :
    Preserves HasNotResponded (perform a) :=
  perform_preserves isLasting_hasNotResponded.toIsAmbient (J := fun _ => True)
    (fun _ _ => ⟨fun _ _ _ => trivial, trivial⟩) (fun _ _ => trivial) fun _ _ h _ => h

/-- An event without a method that is handled keeps what sending keeps. -/
theorem step_unhandled {I : Session γ → Prop} (hI : IsAmbient I)
    (hany : ∀ s m, I s → I { s with outbox := s.outbox ++ [m] }) {caps : Capabilities γ}
    {e : Event} (he : eventMethod? e = none) {s s' : Session γ} {u : Unit}
    (h : step caps e s = .ok u s') (hs : I s) : I s' := by
  have hsend {m : Outbound} {u : Unit} (h : send m s = .ok u s') : I s' := by
    rw [send_eq_ok h]
    exact hany s m hs
  have hpure {u v : Unit} (h : (pure v : Serving γ Unit) s = .ok u s') : I s' := by
    injection h with _ h
    exact h ▸ hs
  cases e with
  | remark e =>
    have hhear := hear_preserves hI e s hs
    rw [after_of_ok (show hear e s = .ok u s' from h)] at hhear
    exact hhear
  | complaint id error => exact hsend h
  | failSends n =>
    injection h with _ h
    exact h ▸ hI.failing s n hs
  | arrival r =>
    cases r with
    | malformed reason => exact hsend h
    | failed reason => cases h
    | oversized => cases h
    | closed => exact hpure h
    | message v =>
      cases v with
      | obj members =>
        have hnone : methodOf? (.obj members) = none := he
        simp only [step, receive] at h
        unfold methodOf? at hnone
        simp only at hnone
        cases hmethod : (Json.obj members).fieldOrNull "method" with
        | str method =>
          simp only [hmethod] at h hnone
          split at hnone
          · next hid =>
            rw [if_pos hid] at h
            exact hsend h
          · cases hnone
        | null =>
          simp only [hmethod] at h
          split at h
          · exact hpure h
          · exact hsend h
        | _ =>
          simp only [hmethod] at h
          exact hsend h
      | _ => exact hsend h

/-- A message that is handled is processed. -/
theorem step_handled (caps : Capabilities γ) {e : Event} {method : String}
    (he : eventMethod? e = some method) :
    ∃ v, e = .arrival (.message v) ∧ methodOf? v = some method ∧
      step caps e = process caps (v.field? "id") method (paramsOf v) := by
  unfold eventMethod? at he
  split at he
  · exact ⟨_, rfl, he, receive_eq_process caps he⟩
  · cases he

end Session

end LanguageServer
