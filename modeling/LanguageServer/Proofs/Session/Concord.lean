import LanguageServer.Proofs.Action.Twins
import LanguageServer.Proofs.Session.Discipline

/-!
# Two sessions side by side

Two sessions accord if they differ only in the state of the capabilities and in what was
exchanged with engines.  Whatever a session does besides asking the capabilities, it does
the same in both; and if the capabilities say and yield the same, the client cannot tell
one session from the other.

## Main definitions

* `Session.Accords` — two sessions differ only in the state of the capabilities.
* `Serving.Relates` — an operation ends in the same way in two sessions.

## Main statements

* `Session.accords_perform` — an action that does the same twice, performed in both.
* `Session.relates_conclude` — what follows after a message was dispatched.
-/

namespace LanguageServer

variable {γ : Type}

namespace Serving

variable {α β : Type}

/-- Two operations end in the same way, in related sessions. -/
structure Agree (P : Session γ → Session γ → Prop) (x x' : Serving γ α) (s s' : Session γ) :
    Prop where
  result : (x'.after s').1 = (x.after s).1
  state : P (x.after s).2 (x'.after s').2

/-- In related sessions the operation ends in the same way, and leaves them related. -/
def Relates (P : Session γ → Session γ → Prop) (x : Serving γ α) : Prop :=
  ∀ s s', P s s' → Agree P x x s s'

/-- What follows an operation may leave sessions related in another way. -/
theorem Agree.andThen {P Q : Session γ → Session γ → Prop} {x x' : Serving γ α}
    {f : α → Serving γ β} {s s' : Session γ} (hx : Agree P x x' s s')
    (hf : ∀ a t t', P t t' → Agree Q (f a) (f a) t t') (hPQ : ∀ t t', P t t' → Q t t') :
    Agree Q (x >>= f) (x' >>= f) s s' := by
  obtain ⟨hresult, hstate⟩ := hx
  cases h : x.after s with
  | mk result t =>
    cases h' : x'.after s' with
    | mk result' t' =>
      rw [h, h'] at hresult hstate
      obtain rfl : result' = result := hresult
      cases result' with
      | error e =>
        constructor <;> simp only [after_bind, h, h']
        exact hPQ t t' hstate
      | ok a =>
        have hnext := hf a t t' hstate
        constructor <;> simp only [after_bind, h, h']
        · exact hnext.result
        · exact hnext.state

namespace Relates

variable {P : Session γ → Session γ → Prop}

theorem pure (a : α) : Relates P (Pure.pure a : Serving γ α) := fun _ _ h => ⟨rfl, h⟩

theorem throw (e : Fault) : Relates P (MonadExcept.throw e : Serving γ α) := fun _ _ h => ⟨rfl, h⟩

theorem bind {x : Serving γ α} {f : α → Serving γ β} (hx : Relates P x)
    (hf : ∀ a, Relates P (f a)) : Relates P (x >>= f) :=
  fun s s' h => (hx s s' h).andThen hf fun _ _ h => h

/-- What is changed behind an operation. -/
theorem eventually {x : Serving γ α} {f : Session γ → Session γ} (hx : Relates P x)
    (hf : ∀ s s', P s s' → P (f s) (f s')) : Relates P (Serving.eventually x f) := by
  intro s s' h
  obtain ⟨hresult, hstate⟩ := hx s s' h
  constructor <;> simp only [after_eventually]
  · exact hresult
  · exact hf _ _ hstate

end Relates

end Serving

namespace Session

open Serving

/-- Two sessions differ only in the state of the capabilities and in what was exchanged with
engines.  Sending does not fail. -/
structure Accords (H : Lifecycle → γ → γ → Prop) (s s' : Session γ) : Prop where
  same : ∃ calls host, s' = { s with calls, host }
  working : s.failing = 0
  hosts : H s.lifecycle s.host s'.host

variable {H : Lifecycle → γ → γ → Prop} {α : Type}

namespace Accords

variable {s s' : Session γ}

theorem lifecycle_eq (h : Accords H s s') : s'.lifecycle = s.lifecycle := by
  obtain ⟨calls, host, rfl⟩ := h.same
  rfl

theorem outbox_eq (h : Accords H s s') : s'.outbox = s.outbox := by
  obtain ⟨calls, host, rfl⟩ := h.same
  rfl

theorem working_right (h : Accords H s s') : s'.failing = 0 := by
  obtain ⟨calls, host, rfl⟩ := h.same
  exact h.working

/-- According sessions accord when the next message is awaited. -/
theorem cleared (h : Accords H s s') : Accords H s.cleared s'.cleared := by
  obtain ⟨⟨calls, host, rfl⟩, hworking, hhosts⟩ := h
  exact ⟨⟨[], host, rfl⟩, hworking, hhosts⟩

end Accords

/-! ## Sending -/

/-- What follows a look at the session, if that is not at the state of the capabilities. -/
theorem relates_get {f : Session γ → Serving γ α}
    (hsame : ∀ s calls host, f { s with calls, host } = f s)
    (hf : ∀ s, Relates (Accords H) (f s)) : Relates (Accords H) (get >>= f) := by
  intro s s' h
  obtain ⟨calls, host, hs'⟩ := h.same
  have hafter (t : Session γ) : (get >>= f).after t = (f t).after t := after_bind _ _ _
  have hf' : f s' = f s := by rw [hs', hsame]
  have hagree := hf s s s' h
  constructor <;> simp only [hafter, hf']
  · exact hagree.result
  · exact hagree.state

/-- A change that does not touch the capabilities. -/
theorem relates_update {f : Session γ → Session γ}
    (hsame : ∀ s calls host, f { s with calls, host } = { f s with calls, host })
    (hworking : ∀ s, (f s).failing = s.failing)
    (hhosts : ∀ s host, H s.lifecycle s.host host → H (f s).lifecycle s.host host) :
    Relates (Accords H) (update f) := by
  intro s s' h
  obtain ⟨calls, host, rfl⟩ := h.same
  have hleft : (f s).host = s.host :=
    show (f { s with calls := s.calls, host := s.host }).host = s.host by rw [hsame]
  have hright : (f { s with calls, host }).host = host := congrArg Session.host (hsame s calls host)
  refine ⟨rfl, ⟨calls, host, hsame s calls host⟩, (hworking s).trans h.working, ?_⟩
  show H (f s).lifecycle (f s).host (f { s with calls, host }).host
  rw [hleft, hright]
  exact hhosts s host h.hosts

theorem relates_send (m : Outbound) : Relates (Accords H) (send m) := by
  rintro s _ ⟨⟨calls, host, rfl⟩, hworking, hhosts⟩
  have hright : ({ s with calls, host } : Session γ).failing = 0 := hworking
  constructor <;> rw [after_send hworking, after_send hright]
  exact ⟨⟨calls, host, rfl⟩, hworking, hhosts⟩

theorem relates_sendAll (l : List Outbound) : Relates (Accords H) (sendAll l) := by
  induction l with
  | nil => exact .pure ()
  | cons m rest ih => exact .bind (relates_send m) fun _ => ih

theorem relates_tell (message : String) (verbose : Option String) :
    Relates (Accords H) (tell message verbose) := by
  refine relates_get (fun _ _ _ => rfl) fun s => ?_
  split
  · exact .pure ()
  · exact relates_send _
  · exact relates_send _

theorem relates_push (uri : String) (version : Option Int) (diagnostics : List Diagnostic) :
    Relates (Accords H) (push uri version diagnostics) := by
  unfold push
  split
  · exact .throw _
  · refine relates_get (fun _ _ _ => rfl) fun s => ?_
    split
    · exact relates_update (fun _ _ _ => rfl) (fun _ => rfl) fun _ _ h => h
    · exact relates_send _

/-- What is said to the client is heard in the same way. -/
theorem relates_hear {e : Effect} (he : e.isCall = false) : Relates (Accords H) (hear e) := by
  cases e with
  | log level message => exact relates_send _
  | publish uri version diagnostics => exact relates_push uri version diagnostics
  | trace message verbose => exact relates_tell message verbose
  | engine call => cases he

theorem relates_flush : Relates (Accords (γ := γ) H) flush := by
  refine relates_get (fun _ _ _ => rfl) fun s => .bind ?_ fun _ => relates_sendAll _
  exact relates_update (fun _ _ _ => rfl) (fun _ => rfl) fun _ _ h => h

theorem relates_respond (id : Option Json) (method : String) (x : Except Fault Json) :
    Relates (Accords (γ := γ) H) (respond id method x) := by
  cases x with
  | ok value =>
    cases id with
    | some id => exact relates_send _
    | none => exact .pure ()
  | error f =>
    cases f with
    | channel reason => cases id <;> exact .throw _
    | _ => cases id <;> exact relates_send _

/-! ## Delivery -/

/-- According sessions stay so if something was exchanged with engines. -/
theorem Accords.call {s s' : Session γ} (h : Accords H s s') (calls calls' : List EngineCall) :
    Accords H { s with calls } { s' with calls := calls' } := by
  obtain ⟨⟨_, host, rfl⟩, hworking, hhosts⟩ := h
  exact ⟨⟨calls', host, rfl⟩, hworking, hhosts⟩

/-- A delivery that stops does so in related states. -/
def StopAlike (I : γ → γ → Prop) : Option (Fault × γ) → Option (Fault × γ) → Prop
  | none, none => True
  | some (f, t), some (f', t') => f' = f ∧ I t t'
  | _, _ => False

/-- If sending does not fail, only a publication is refused. -/
theorem isPush_of_hear_eq_error {e : Effect} {s s' : Session γ} {f : Fault} (hs : s.failing = 0)
    (h : (hear e).after s = (.error f, s')) : e.isPush = true := by
  cases e with
  | log level message =>
    rw [show (hear (.log level message)).after s = _ from after_send hs] at h
    cases h
  | publish uri version diagnostics => rfl
  | trace message verbose =>
    simp only [hear, Serving.tell, after_bind,
      show (get : Serving γ _).after s = (.ok s, s) from rfl] at h
    cases ht : s.trace <;> simp only [ht, after_send hs, after_pure] at h <;> cases h
  | engine call => cases h

/-- Delivering the same to the client has the same effect. -/
theorem accords_deliverAll {I : γ → γ → Prop} {l l' : List (Effect × γ)}
    (hl : List.Forall₂ (Echoes I) (l.filter (!·.1.isCall)) (l'.filter (!·.1.isCall)))
    {s s' : Session γ} (h : Accords H s s') :
    Accords H (deliverAll hear s l).1 (deliverAll hear s' l').1 ∧
      StopAlike I (deliverAll hear s l).2 (deliverAll hear s' l').2 := by
  induction l generalizing l' s s' with
  | nil =>
    induction l' generalizing s' with
    | nil => exact ⟨h, trivial⟩
    | cons y rest ih =>
      obtain ⟨e, t⟩ := y
      cases e with
      | engine call => exact ih hl (h.call s.calls (s'.calls ++ [call]))
      | _ => cases hl
  | cons x rest ih =>
    obtain ⟨e, t⟩ := x
    cases he : e.isCall with
    | true =>
      cases e with
      | engine call => exact ih hl (h.call (s.calls ++ [call]) s'.calls)
      | _ => cases he
    | false =>
      simp only [List.filter_cons, he, Bool.not_false, if_true] at hl
      induction l' generalizing s' with
      | nil => cases hl
      | cons y rest' ih' =>
        obtain ⟨e', t'⟩ := y
        cases he' : e'.isCall with
        | true =>
          cases e' with
          | engine call => exact ih' (h.call s.calls (s'.calls ++ [call])) hl
          | _ => cases he'
        | false =>
          simp only [List.filter_cons, he', Bool.not_false, if_true] at hl
          cases hl with
          | cons hecho hrest =>
            obtain rfl : e' = e := hecho.effect
            have hheard := relates_hear he s s' h
            rw [deliverAll_cons, deliverAll_cons]
            cases hx : (hear e').after s with
            | mk result s₁ =>
              cases hx' : (hear e').after s' with
              | mk result' s₁' =>
                obtain ⟨hresult, hstate⟩ := hheard
                rw [hx, hx'] at hresult hstate
                obtain rfl : result' = result := hresult
                cases result' with
                | ok u => exact ih hrest hstate
                | error f =>
                  exact ⟨hstate, rfl, hecho.state (isPush_of_hear_eq_error h.working hx)⟩

/-- According sessions stay so under other states of the capabilities. -/
theorem Accords.hosted {s s' : Session γ} (h : Accords H s s') {H' : Lifecycle → γ → γ → Prop}
    {host host' : γ} (hhosts : H' s.lifecycle host host') :
    Accords H' { s with host } { s' with host := host' } := by
  obtain ⟨⟨calls, _, rfl⟩, hworking, -⟩ := h
  exact ⟨⟨calls, host', rfl⟩, hworking, hhosts⟩

/-- An action that does the same twice has the same result if it is performed in according
sessions.  These accord again; the states of the capabilities are related as the action leaves
them, or, if a publication was refused, as they are there. -/
theorem accords_perform {I R : γ → γ → Prop} {E : Fault → γ → γ → Prop} {S : α → γ → γ → Prop}
    {a : Action γ α} (ha : a.Twins I E R S) {s s' : Session γ} (h : Accords H s s')
    (hR : R s.host s'.host) :
    ((perform a).after s').1 = ((perform a).after s).1 ∧
      Accords (fun _ ws ws' => (∀ x, ((perform a).after s).1 = .ok x → S x ws ws') ∧
        ∀ f, ((perform a).after s).1 = .error f → E f ws ws' ∨ I ws ws')
        ((perform a).after s).2 ((perform a).after s').2 := by
  have hmatch := ha s.host s'.host hR
  obtain ⟨hsession, hstop⟩ := accords_deliverAll hmatch.said h
  rw [after_perform, after_perform]
  unfold Run.deliver
  cases hd : deliverAll hear s (a.run s.host).said with
  | mk k stop =>
    cases hd' : deliverAll hear s' (a.run s'.host).said with
    | mk k' stop' =>
      rw [hd, hd'] at hsession hstop
      match stop, stop', hstop with
      | none, none, _ =>
        exact ⟨hmatch.result, hsession.hosted ⟨hmatch.ok, fun f hf => .inl (hmatch.error f hf)⟩⟩
      | some (f, t), some (f', t'), ⟨hf, ht⟩ =>
        obtain rfl : f' = f := hf
        exact ⟨rfl, hsession.hosted ⟨fun _ => nofun, fun _ _ => .inr ht⟩⟩

/-- An action that says nothing to the client changes the state of the capabilities only. -/
theorem after_perform_inaudible {a : Action γ α} {s : Session γ}
    (h : (a.run s.host).audible = []) :
    ∃ calls, (perform a).after s =
      ((a.run s.host).result, { s with calls, host := (a.run s.host).state }) := by
  have hall : ∀ (l : List (Effect × γ)) (s : Session γ), l.filter (!·.1.isCall) = [] →
      ∃ calls, deliverAll hear s l = ({ s with calls }, none) := by
    intro l
    induction l with
    | nil => exact fun s _ => ⟨s.calls, rfl⟩
    | cons x rest ih =>
      intro s hl
      obtain ⟨e, t⟩ := x
      cases e with
      | engine call =>
        obtain ⟨calls, hrest⟩ := ih { s with calls := s.calls ++ [call] } hl
        exact ⟨calls, hrest⟩
      | _ => cases hl
  obtain ⟨calls, hd⟩ := hall _ s h
  refine ⟨calls, ?_⟩
  rw [after_perform]
  unfold Run.deliver
  rw [hd]

/-! ## Dispatching -/

/-- Methods that are not passed on do the same in according sessions. -/
theorem relates_handle (hleave : ∀ l l' ws ws', l' ≠ .uninitialized → H l ws ws' → H l' ws ws')
    (caps : Capabilities γ) {m : Method} (hdelegated : m.isDelegated = false)
    (hinit : m ≠ .initialise) (params : Json) : Relates (Accords H) (handle caps m params) := by
  cases m with
  | initialise => exact absurd rfl hinit
  | shutdown =>
    exact .bind (relates_update (fun _ _ _ => rfl) (fun _ => rfl)
      fun _ _ => hleave _ _ _ _ nofun) fun _ => .pure _
  | exit =>
    exact .bind (relates_update (fun _ _ _ => rfl) (fun _ => rfl)
      fun _ _ => hleave _ _ _ _ nofun) fun _ => .pure _
  | setTrace =>
    show Relates (Accords H) (handleSetTrace params)
    unfold handleSetTrace
    split
    · split
      · exact .bind (relates_update (fun _ _ _ => rfl) (fun _ => rfl) fun _ _ h => h) fun _ =>
          .pure _
      · exact .throw _
    · exact .throw _
  | cancelRequest => exact .bind (relates_tell _ _) fun _ => .pure _
  | _ => cases hdelegated

/-- The states of the capabilities before an initialisation. -/
def Beforehand (H : Lifecycle → γ → γ → Prop) (l : Lifecycle) (ws ws' : γ) : Prop :=
  l = .uninitialized ∧ H .uninitialized ws ws'

/-- An initialisation has the same outcome in according sessions, if its preparation does the
same. -/
theorem agree_initialise (hleave : ∀ l l' ws ws', l' ≠ .uninitialized → H l ws ws' → H l' ws ws')
    {caps : Capabilities γ} (hprepare : ∀ root folders options,
      (caps.initialise root folders options).Twins (H .uninitialized) (fun _ => H .uninitialized)
        (H .uninitialized) fun _ => H .uninitialized) {s s' : Session γ} (h : Accords H s s')
    (hl : s.lifecycle = .uninitialized) (params : Json) :
    Agree (Accords H) (handleInitialise caps params) (handleInitialise caps params) s s' := by
  have hweak : ∀ t t' : Session γ, Accords (Beforehand H) t t' → Accords H t t' :=
    fun t t' ht => ⟨ht.same, ht.working, ht.hosts.1 ▸ ht.hosts.2⟩
  have hroot : Relates (Accords (Beforehand H)) (rootOf (γ := γ) params) := by
    unfold rootOf
    repeat' split
    all_goals first | exact .pure _ | exact .throw _
  have hfolders : Relates (Accords (Beforehand H)) (foldersOf (γ := γ) params) := by
    unfold foldersOf
    simp only
    repeat' split
    all_goals first | exact .pure _ | exact .throw _
  have htrace : Relates (Accords (Beforehand H)) (traceOf (γ := γ) params) := by
    unfold traceOf
    split
    · exact relates_get (fun _ _ _ => rfl) fun s => .pure _
    · split
      · exact .pure _
      · exact .throw _
  have hperform (root : Json) (folders : List WorkspaceFolder) :
      Relates (Accords (Beforehand H))
        (perform (caps.initialise root folders (params.fieldOrNull "initializationOptions"))) := by
    intro t t' ht
    obtain ⟨hresult, hstate⟩ := accords_perform (hprepare root folders _) ht ht.hosts.2
    refine ⟨hresult, hstate.same, hstate.working, ?_, ?_⟩
    · rw [lifecycle_perform]
      exact ht.hosts.1
    · obtain ⟨hok, herror⟩ := hstate.hosts
      cases hx : ((perform (caps.initialise root folders
          (params.fieldOrNull "initializationOptions"))).after t).1 with
      | ok x => exact hok x hx
      | error f => exact (herror f hx).elim id id
  have hbefore : Accords (Beforehand H) s s' := ⟨h.same, h.working, hl, hl ▸ h.hosts⟩
  unfold handleInitialise
  cases params with
  | obj members =>
    refine (hroot s s' hbefore).andThen (fun root t t' ht => ?_) hweak
    refine (hfolders t t' ht).andThen (fun folders t t' ht => ?_) hweak
    refine (htrace t t' ht).andThen (fun trace t t' ht => ?_) hweak
    refine (hperform root folders t t' ht).andThen (fun id t t' ht => ?_) hweak
    have hbegin : Relates (Accords H)
        (update fun s : Session γ => { s with lifecycle := .initialized, trace }) :=
      relates_update (fun _ _ _ => rfl) (fun _ => rfl) fun _ _ => hleave _ _ _ _ nofun
    exact hbegin.bind (fun _ => .pure (greeting id)) t t' (hweak t t' ht)
  | _ => exact ⟨rfl, h⟩

/-! ## Concluding -/

/-- What follows after a message was dispatched is the same in according sessions. -/
theorem relates_conclude (id : Option Json) (method : String) (x : Except Fault Json) :
    Relates (Accords (γ := γ) H) (conclude id method x) := by
  refine .bind (.eventually (relates_respond id method x) fun s s' h => ?_) fun _ => relates_flush
  obtain ⟨⟨calls, host, rfl⟩, hworking, hhosts⟩ := h
  exact ⟨⟨calls, host, rfl⟩, hworking, hhosts⟩

/-- According sessions accord when a message is about to be dispatched. -/
theorem Accords.begun {s s' : Session γ} (h : Accords H s s') (method : String) (params : Json)
    (isRequest : Bool) :
    Accords H (s.begun method params isRequest) (s'.begun method params isRequest) := by
  obtain ⟨⟨calls, host, rfl⟩, hworking, hhosts⟩ := h
  exact ⟨⟨calls, host, rfl⟩, hworking, hhosts⟩

/-- A message has the same outcome in according sessions if its dispatch has; they accord then as the
dispatch leaves them. -/
theorem agree_process {H' : Lifecycle → γ → γ → Prop} {caps : Capabilities γ} {s s' : Session γ}
    (h : Accords H s s') {id : Option Json} {method : String} {params : Json}
    (hdispatch : Agree (Accords H') (dispatch caps method params id.isSome)
      (dispatch caps method params id.isSome) (s.begun method params id.isSome)
      (s'.begun method params id.isSome)) :
    Agree (Accords H') (process caps id method params) (process caps id method params) s s' := by
  have hworking : s'.failing = 0 := h.working_right
  obtain ⟨hresult, hstate⟩ := hdispatch
  have hagree := relates_conclude id method
    ((dispatch caps method params id.isSome).after (s.begun method params id.isSome)).1 _ _ hstate
  constructor <;> rw [after_process h.working, after_process hworking, hresult]
  · exact hagree.result
  · exact hagree.state

end Session

end LanguageServer
