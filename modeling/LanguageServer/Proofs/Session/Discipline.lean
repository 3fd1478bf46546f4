import LanguageServer.Proofs.Session.Channel
import LanguageServer.Proofs.Session.Handling

/-!
# One response to a request

Whatever the capabilities say, yield or fail with, a message is handled to its end as long
as messages can be sent: a request gets one response and a notification none, and the
diagnostics that were pushed on the way are sent behind everything else, in order and each
of them once.

## Main definitions

* `Session.awaitsResponse` — whether a message is answered.
* `Session.heard` — what the capabilities say while a message is handled.
* `publications` — the diagnostics that are pushed before the session refuses one.

## Main statements

* `Session.receive_disciplined` — what is sent for a message.
-/

namespace LanguageServer

/-! ## Sending while sending works -/

/-- Whether a message is an entry of the client's log or a trace. -/
def Outbound.isRemark : Outbound → Bool
  | .log .. => true
  | .trace .. => true
  | _ => false

/-- Whether a message publishes diagnostics. -/
def Outbound.isPublication : Outbound → Bool
  | .publish .. => true
  | _ => false

theorem Outbound.isPublication_of_isRemark {m : Outbound} (h : m.isRemark = true) :
    m.isPublication = false := by cases m <;> first | rfl | cases h

theorem Outbound.isResponse_of_isRemark {m : Outbound} (h : m.isRemark = true) :
    m.isResponse = false := by cases m <;> first | rfl | cases h

/-- The diagnostics that an effect pushes, as they are sent. -/
def Effect.publication? : Effect → Option Outbound
  | .publish uri version diagnostics => some (.publish uri version diagnostics)
  | _ => none

/-- Whether the session refuses what is said: the protocol cannot express the version. -/
def Effect.isRefused : Effect → Bool
  | .publish _ version _ => version.any (!Params.isVersion ·)
  | _ => false

/-- The diagnostics that are pushed before the session refuses one. -/
def publications (l : List Effect) : List Outbound :=
  (l.takeWhile (!·.isRefused)).filterMap Effect.publication?

theorem publications_cons_of_isRefused {e : Effect} (h : e.isRefused = true) (l : List Effect) :
    publications (e :: l) = [] := by simp [publications, h]

theorem publications_cons {e : Effect} (h : e.isRefused = false) (l : List Effect) :
    publications (e :: l) = e.publication?.toList ++ publications l := by
  cases hp : e.publication? <;> simp [publications, h, hp]

namespace Serving

variable {γ α : Type}

theorem after_send {m : Outbound} {s : Session γ} (hs : s.failing = 0) :
    (send m).after s = (.ok (), { s with outbox := s.outbox ++ [m] }) := by
  simp [after, send, hs]

theorem after_sendAll {s : Session γ} (hs : s.failing = 0) (l : List Outbound) :
    (sendAll l).after s = (.ok (), { s with outbox := s.outbox ++ l }) := by
  induction l generalizing s with
  | nil => simp [sendAll]
  | cons m rest ih =>
    have hnext : ({ s with outbox := s.outbox ++ [m] } : Session γ).failing = 0 := hs
    rw [sendAll, after_bind, after_send hs]
    simp only [ih hnext, List.append_assoc, List.singleton_append]

/-- While a message is dispatched some things were said: remarks were sent, diagnostics held
back. -/
structure Advances (pushed : List Outbound) (s s' : Session γ) : Prop where
  failing : s'.failing = s.failing
  dispatching : s'.dispatching = s.dispatching
  deferred : s'.deferred = s.deferred ++ pushed
  outbox : ∃ remarks, s'.outbox = s.outbox ++ remarks ∧ ∀ m ∈ remarks, m.isRemark = true

namespace Advances

variable {s s' s'' : Session γ} {pushed pushed' : List Outbound}

/-- Nothing was said, whatever else changed. -/
theorem silent (hfailing : s'.failing = s.failing) (hdispatching : s'.dispatching = s.dispatching)
    (hdeferred : s'.deferred = s.deferred) (houtbox : s'.outbox = s.outbox) :
    Advances [] s s' :=
  ⟨hfailing, hdispatching, by simp [hdeferred], [], by simp [houtbox], nofun⟩

theorem refl (s : Session γ) : Advances [] s s := silent rfl rfl rfl rfl

theorem trans (h : Advances pushed s s') (h' : Advances pushed' s' s'') :
    Advances (pushed ++ pushed') s s'' := by
  obtain ⟨remarks, houtbox, hremarks⟩ := h.outbox
  obtain ⟨remarks', houtbox', hremarks'⟩ := h'.outbox
  refine ⟨h'.failing.trans h.failing, h'.dispatching.trans h.dispatching, ?_,
    remarks ++ remarks', ?_, ?_⟩
  · rw [h'.deferred, h.deferred, List.append_assoc]
  · rw [houtbox', houtbox, List.append_assoc]
  · exact fun m hm => (List.mem_append.1 hm).elim (hremarks m) (hremarks' m)

theorem remark (s : Session γ) {m : Outbound} (hm : m.isRemark = true) :
    Advances [] s { s with outbox := s.outbox ++ [m] } :=
  ⟨rfl, rfl, by simp, [m], rfl, fun m' hm' => List.mem_singleton.1 hm' ▸ hm⟩

end Advances

/-- Telling a trace succeeds. -/
theorem after_tell {s : Session γ} (hs : s.failing = 0) (message : String)
    (verbose : Option String) :
    ∃ s', (tell message verbose).after s = (.ok (), s') ∧ Advances [] s s' := by
  unfold tell
  simp only [after_bind, after_get]
  cases s.trace with
  | off => exact ⟨s, rfl, .refl s⟩
  | messages => exact ⟨_, after_send hs, .remark s (m := .trace message none) rfl⟩
  | verbose => exact ⟨_, after_send hs, .remark s (m := .trace message verbose) rfl⟩

/-- What is said during a dispatch is heard, but for a publication that is refused. -/
theorem hear_dispatching {s : Session γ} (hs : s.failing = 0) (hdispatching : s.dispatching = true)
    (e : Effect) :
    e.isRefused = true ∧ (∃ v, (hear e).after s = (.error (.versionRange v), s)) ∨
      e.isRefused = false ∧ ∃ s', (hear e).after s = (.ok (), s') ∧
        Advances e.publication?.toList s s' := by
  cases e with
  | log level message => exact .inr ⟨rfl, _, after_send hs, .remark s rfl⟩
  | trace message verbose => exact .inr ⟨rfl, after_tell hs message verbose⟩
  | engine call => exact .inr ⟨rfl, _, rfl, .silent rfl rfl rfl rfl⟩
  | publish uri version diagnostics =>
    cases hv : version.filter (!Params.isVersion ·) with
    | some v =>
      refine .inl ⟨?_, v, by simp only [hear, push, hv]; rfl⟩
      obtain ⟨rfl, hrefused⟩ := Option.filter_eq_some_iff.1 hv
      exact hrefused
    | none =>
      refine .inr ⟨?_, { s with deferred := s.deferred ++ [.publish uri version diagnostics] }, ?_,
        ⟨rfl, rfl, rfl, [], by simp, by simp⟩⟩
      · cases version with
        | none => rfl
        | some v => simpa [Effect.isRefused] using Option.filter_eq_none_iff.1 hv v rfl
      · simp only [hear, push, hv, after_bind, after_get, hdispatching, if_true, after_update]

theorem deliverAll_cons (e : Effect) (t : γ) (rest : List (Effect × γ)) (s : Session γ) :
    deliverAll hear s ((e, t) :: rest) =
      match (hear e).after s with
      | (.ok (), s') => deliverAll hear s' rest
      | (.error f, s') => (s', some (f, t)) := by
  unfold after
  rw [deliverAll]
  cases hear e s <;> rfl

/-- During a dispatch all that is said is heard up to a publication that is refused. -/
theorem advances_deliverAll {s : Session γ} (hs : s.failing = 0) (hdispatching : s.dispatching = true)
    (l : List (Effect × γ)) :
    Advances (publications (l.map (·.1))) s (deliverAll hear s l).1 ∧
      ∀ reason t, (deliverAll hear s l).2 ≠ some (.channel reason, t) := by
  induction l generalizing s with
  | nil => exact ⟨.refl s, fun _ _ => nofun⟩
  | cons entry rest ih =>
    obtain ⟨e, t⟩ := entry
    rw [deliverAll_cons, List.map_cons]
    rcases hear_dispatching hs hdispatching e with ⟨hrefused, v, hv⟩ | ⟨hheard, s', hs', hadvance⟩
    · rw [publications_cons_of_isRefused hrefused, hv]
      exact ⟨.refl s, fun _ _ => nofun⟩
    · rw [publications_cons hheard, hs']
      obtain ⟨hrest, hchannel⟩ := ih (hadvance.failing.trans hs)
        (hadvance.dispatching.trans hdispatching)
      exact ⟨hadvance.trans hrest, hchannel⟩

/-- Performing an action during a dispatch. -/
theorem advances_perform {a : Action γ α} (ha : a.SparesChannel) {s : Session γ}
    (hs : s.failing = 0) (hdispatching : s.dispatching = true) :
    Advances (publications ((a.run s.host).said.map (·.1))) s ((perform a).after s).2 ∧
      ∀ reason, ((perform a).after s).1 ≠ .error (.channel reason) := by
  obtain ⟨hadvance, hchannel⟩ := advances_deliverAll hs hdispatching (a.run s.host).said
  have hresult := ha s.host
  rw [after_perform]
  unfold Run.deliver
  cases hd : deliverAll hear s (a.run s.host).said with
  | mk s' stop =>
    rw [hd] at hadvance hchannel
    cases stop with
    | none => exact ⟨⟨hadvance.failing, hadvance.dispatching, hadvance.deferred, hadvance.outbox⟩,
        hresult⟩
    | some stop =>
      refine ⟨⟨hadvance.failing, hadvance.dispatching, hadvance.deferred, hadvance.outbox⟩,
        fun reason heq => ?_⟩
      obtain ⟨f, t⟩ := stop
      exact hchannel reason t (by rw [Except.error.inj heq])

end Serving

namespace Session

open Serving

variable {γ : Type}

/-! ## After the dispatch -/

/-- What follows the dispatch of a message with some outcome. -/
def conclude (id : Option Json) (method : String) (x : Except Fault Json) : Serving γ Unit := do
  eventually (respond id method x) fun s => { s with dispatching := false }
  flush

theorem after_respond {s : Session γ} (hs : s.failing = 0) (id : Option Json) (method : String)
    {x : Except Fault Json} (hx : ∀ reason, x ≠ .error (.channel reason)) :
    (respond id method x).after s =
      (.ok (), { s with outbox := s.outbox ++ response id method x }) := by
  cases x with
  | ok value =>
    cases id with
    | some id => exact after_send hs
    | none => simp [respond, response]
  | error f =>
    cases f with
    | channel reason => exact absurd rfl (hx reason)
    | _ => cases id <;> exact after_send hs

theorem after_conclude {s : Session γ} (hs : s.failing = 0) (id : Option Json) (method : String)
    {x : Except Fault Json} (hx : ∀ reason, x ≠ .error (.channel reason)) :
    (conclude id method x).after s = (.ok (), s.finished (response id method x)) := by
  unfold conclude flush
  rw [after_bind, after_eventually, after_respond hs id method hx]
  simp only [after_bind, after_get, after_update]
  exact after_sendAll (s := { s with
    outbox := s.outbox ++ response id method x, dispatching := false, deferred := [] }) hs s.deferred

theorem after_tell_received {s : Session γ} (hs : s.failing = 0) (method : String) (params : Json)
    (isRequest : Bool) :
    (tell (receivedMessage method isRequest) (some (String.ofList (params.print .spaced)))).after s =
      (.ok (), { s with outbox := s.outbox ++ s.receipt method params isRequest }) := by
  obtain ⟨s', htell, -⟩ := after_tell hs (receivedMessage method isRequest)
    (some (String.ofList (params.print .spaced)))
  rw [htell]
  unfold after at htell
  cases h : tell (receivedMessage method isRequest)
      (some (String.ofList (params.print .spaced))) s with
  | ok u s'' =>
    rw [h] at htell
    obtain rfl := (Prod.mk.inj htell).2
    rw [tell_received_eq_ok h]
  | error e s'' => simp [h] at htell

/-- As long as sending works, a message is dispatched, and then its handling is concluded. -/
theorem after_process {s : Session γ} (hs : s.failing = 0) (caps : Capabilities γ) (id : Option Json)
    (method : String) (params : Json) :
    (process caps id method params).after s =
      (conclude id method
        ((dispatch caps method params id.isSome).after (s.begun method params id.isSome)).1).after
        ((dispatch caps method params id.isSome).after (s.begun method params id.isSome)).2 := by
  unfold process conclude
  rw [after_bind, after_tell_received hs]
  simp only [after_bind, after_update, after_eventually, after_outcome]
  rfl

/-! ## What the capabilities say -/

/-- Whether a method is accepted at a point of the lifecycle. -/
def admits (l : Lifecycle) (method : String) : Bool :=
  method == Method.exit.name ||
    match l with
    | .uninitialized => method == Method.initialise.name
    | .shuttingDown => false
    | _ => method != Method.initialise.name

/-- What is accepted passes, and anything else is refused, or dropped. -/
theorem after_accepts (method : String) (isRequest : Bool) (s : Session γ) :
    admits s.lifecycle method = true ∧ (accepts method isRequest).after s = (.ok true, s) ∨
      admits s.lifecycle method = false ∧ ((accepts method isRequest).after s = (.ok false, s) ∨
        ∃ e, (accepts method isRequest).after s = (.error (.refused e), s)) := by
  unfold accepts admits
  rw [after_bind, after_get]
  by_cases hexit : method = Method.exit.name
  · exact .inl ⟨by simp [hexit], by simp [hexit]⟩
  · by_cases hinit : method = Method.initialise.name
    · subst hinit
      cases hl : s.lifecycle with
      | uninitialized => exact .inl ⟨by simp, by simp [hexit, hl]⟩
      | _ => cases isRequest <;> simp [hexit, hl, refuse]
    · cases hl : s.lifecycle <;> cases isRequest <;> simp [hexit, hinit, hl, refuse]

/-- The action of the capabilities that an initialisation asks for, if its parameters are of the
expected shape. -/
def preparation? (caps : Capabilities γ) (params : Json) (s : Session γ) :
    Option (Action γ ServerId) :=
  match params with
  | .obj _ =>
    match ((do
        let root ← rootOf params
        let folders ← foldersOf params
        let _ ← traceOf params
        return (root, folders) : Serving γ (Json × List WorkspaceFolder)).after s).1 with
    | .ok (root, folders) =>
      some (caps.initialise root folders (params.fieldOrNull "initializationOptions"))
    | .error _ => none
  | _ => none

/-- What the capabilities say for a method. -/
def remarksFor (caps : Capabilities γ) (m : Method) (params : Json) (s : Session γ) : List Effect :=
  match m with
  | .initialise =>
    match preparation? caps params s with
    | some a => (a.run s.host).said.map (·.1)
    | none => []
  | m =>
    match deed? caps m params with
    | some a => (a.run s.host).said.map (·.1)
    | none => []

/-- What the capabilities say for an accepted method; they are not asked for any other. -/
def remarks (caps : Capabilities γ) (method : String) (params : Json) (s : Session γ) : List Effect :=
  if admits s.lifecycle method then
    match Method.ofName? method with
    | some m => remarksFor caps m params s
    | none => []
  else []

/-- What the capabilities say while a message is handled. -/
def heard (caps : Capabilities γ) (s : Session γ) (v : Json) : List Effect :=
  match methodOf? v with
  | some method => remarks caps method (paramsOf v) s
  | none => []

variable {caps : Capabilities γ} {s : Session γ}

theorem sparesChannel_deed (hcaps : caps.SpareChannel) {m : Method} {params : Json}
    {a : Action γ Json} (ha : deed? caps m params = some a) : a.SparesChannel := by
  have hmapped {α : Type} {f : α → Json} {a : Action γ α} (h : a.SparesChannel) :
      (do return f (← a) : Action γ Json).SparesChannel := .bind h fun _ => .pure _
  cases isDeed_of_deed? ha with
  | initialised => exact hmapped hcaps.initialised
  | settings => exact hmapped (hcaps.changeConfiguration _)
  | opened _ => exact hmapped (hcaps.documentOpened _)
  | changed _ => exact hmapped (hcaps.documentChanged _ _ _)
  | closed _ => exact hmapped (hcaps.documentClosed _)
  | definition _ => exact hmapped (hcaps.definition _ _)
  | highlights _ => exact hmapped (hcaps.highlights _ _)
  | references _ => exact hmapped (hcaps.references _ _)

/-! ## Dispatching -/

/-- An operation says certain things during a dispatch, and does not fail in the name of the
channel. -/
structure Says (effects : List Effect) (s : Session γ) (r : Except Fault Json × Session γ) : Prop where
  advances : Advances (publications effects) s r.2
  spares : ∀ reason, r.1 ≠ .error (.channel reason)

theorem Says.silent {r : Except Fault Json × Session γ} (h : Advances [] s r.2)
    (hspares : ∀ reason, r.1 ≠ .error (.channel reason)) : Says [] s r := ⟨h, hspares⟩

/-- An operation yields something that depends on the trace level only, and changes nothing; it
does not fail in the name of the channel. -/
def IsReading {α : Type} (x : Serving γ α) : Prop :=
  ∃ f : Trace → Except Fault α, (∀ s, x.after s = (f s.trace, s)) ∧
    ∀ trace reason, f trace ≠ .error (.channel reason)

theorem after_reading_bind {α β : Type} {x : Serving γ α} {f : Trace → Except Fault α}
    (hx : ∀ s, x.after s = (f s.trace, s)) (g : α → Serving γ β) (s : Session γ) :
    (x >>= g).after s =
      match f s.trace with
      | .ok a => (g a).after s
      | .error e => (.error e, s) := by
  rw [after_bind, hx]
  cases f s.trace <;> rfl

theorem isReading_rootOf (params : Json) : IsReading (γ := γ) (rootOf params) := by
  unfold rootOf
  repeat' split
  all_goals first
    | exact ⟨fun _ => .ok _, fun _ => rfl, nofun⟩
    | exact ⟨fun _ => .error _, fun _ => rfl, nofun⟩

theorem isReading_foldersOf (params : Json) : IsReading (γ := γ) (foldersOf params) := by
  unfold foldersOf
  simp only
  repeat' split
  all_goals first
    | exact ⟨fun _ => .ok _, fun _ => rfl, nofun⟩
    | exact ⟨fun _ => .error _, fun _ => rfl, nofun⟩

theorem isReading_traceOf (params : Json) : IsReading (γ := γ) (traceOf params) := by
  unfold traceOf
  split
  · exact ⟨fun trace => .ok trace, fun _ => rfl, nofun⟩
  · split
    · exact ⟨fun _ => .ok _, fun _ => rfl, nofun⟩
    · exact ⟨fun _ => .error _, fun _ => rfl, nofun⟩

theorem says_perform {a : Action γ Json} (ha : a.SparesChannel) (hs : s.failing = 0)
    (hdispatching : s.dispatching = true) :
    Says ((a.run s.host).said.map (·.1)) s ((perform a).after s) :=
  ⟨(advances_perform ha hs hdispatching).1, (advances_perform ha hs hdispatching).2⟩

theorem says_handleInitialise (hcaps : caps.SpareChannel) (hs : s.failing = 0)
    (hdispatching : s.dispatching = true) (params : Json) :
    Says (remarksFor caps .initialise params s) s ((handleInitialise caps params).after s) := by
  cases params with
  | obj members =>
    obtain ⟨root, hroot, hrootSpares⟩ := isReading_rootOf (γ := γ) (.obj members)
    obtain ⟨folders, hfolders, hfoldersSpares⟩ := isReading_foldersOf (γ := γ) (.obj members)
    obtain ⟨trace, htrace, htraceSpares⟩ := isReading_traceOf (γ := γ) (.obj members)
    have hrefused {α : Type} {x : Except Fault α} {e : Fault} (hx : x = .error e)
        (hspares : ∀ reason, x ≠ .error (.channel reason)) :
        Says [] s ((.error e, s) : Except Fault Json × Session γ) :=
      .silent (.refl s) fun reason heq => hspares reason (by rw [hx, Except.error.inj heq])
    simp only [remarksFor, preparation?, handleInitialise, after_reading_bind hroot,
      after_reading_bind hfolders, after_reading_bind htrace, after_bind]
    cases hr : root s.trace with
    | error e => exact hrefused hr (hrootSpares _)
    | ok root =>
      cases hf : folders s.trace with
      | error e => exact hrefused hf (hfoldersSpares _)
      | ok folders =>
        cases ht : trace s.trace with
        | error e => exact hrefused ht (htraceSpares _)
        | ok trace =>
          obtain ⟨hadvances, hspares⟩ := advances_perform (hcaps.initialise root folders
            ((Json.obj members).fieldOrNull "initializationOptions")) hs hdispatching
          simp only [after_pure]
          cases h : (perform (caps.initialise root folders
              ((Json.obj members).fieldOrNull "initializationOptions"))).after s with
          | mk result t =>
            rw [h] at hadvances hspares
            cases result with
            | error e => exact ⟨hadvances, fun reason heq =>
                hspares reason (congrArg Except.error (Except.error.inj heq))⟩
            | ok id => exact ⟨⟨hadvances.failing, hadvances.dispatching, hadvances.deferred,
                hadvances.outbox⟩, fun _ heq => by cases heq⟩
  | _ => exact .silent (.refl s) fun _ heq => by cases heq

/-- What a method says is what it makes the capabilities say. -/
theorem says_handle (hcaps : caps.SpareChannel) (hs : s.failing = 0)
    (hdispatching : s.dispatching = true) (m : Method) (params : Json) :
    Says (remarksFor caps m params s) s ((handle caps m params).after s) := by
  by_cases hm : m.isDelegated = true
  · have hremarks : remarksFor caps m params s =
        match deed? caps m params with
        | some a => (a.run s.host).said.map (·.1)
        | none => [] := by cases m <;> first | rfl | cases hm
    rcases handle_delegated caps hm params with ⟨a, ha, hperform⟩ | ⟨hnone, e, hrefuse⟩
    · simp only [hremarks, ha, hperform]
      exact says_perform (sparesChannel_deed hcaps ha) hs hdispatching
    · simp only [hremarks, hnone, hrefuse]
      exact .silent (.refl s) nofun
  · cases m with
    | initialise => exact says_handleInitialise hcaps hs hdispatching params
    | shutdown => exact .silent (.silent rfl rfl rfl rfl) nofun
    | exit => exact .silent (.silent rfl rfl rfl rfl) nofun
    | setTrace =>
      show Says [] s ((handleSetTrace params).after s)
      unfold handleSetTrace
      split
      · split
        · exact .silent (.silent rfl rfl rfl rfl) nofun
        · exact .silent (.refl s) nofun
      · exact .silent (.refl s) nofun
    | cancelRequest =>
      obtain ⟨s', htell, hadvances⟩ := after_tell hs "Ignoring $/cancelRequest" none
      have hafter : (handle caps .cancelRequest params).after s = (.ok .null, s') := by
        unfold handle
        rw [after_bind, htell]
        rfl
      rw [hafter]
      exact .silent hadvances nofun
    | _ => exact absurd rfl hm

theorem says_dispatch (hcaps : caps.SpareChannel) (hs : s.failing = 0)
    (hdispatching : s.dispatching = true) (method : String) (params : Json) (isRequest : Bool) :
    Says (remarks caps method params s) s ((dispatch caps method params isRequest).after s) := by
  unfold dispatch remarks
  rw [after_bind]
  rcases after_accepts method isRequest s with ⟨hadmits, haccepts⟩ | ⟨hadmits, hdrop | ⟨e, hrefuse⟩⟩
  · simp only [hadmits, haccepts, if_true]
    cases Method.ofName? method with
    | some m => exact says_handle hcaps hs hdispatching m params
    | none => cases isRequest <;> exact .silent (.refl s) fun _ heq => by cases heq
  · simp only [hadmits, hdrop]
    exact .silent (.refl s) fun _ heq => by cases heq
  · simp only [hadmits, hrefuse]
    exact .silent (.refl s) fun _ heq => by cases heq

/-- What the capabilities say does not depend on what was sent before. -/
theorem remarks_begun (caps : Capabilities γ) (method : String) (params : Json) (isRequest : Bool)
    (s : Session γ) :
    remarks caps method params (s.begun method params isRequest) = remarks caps method params s := by
  have hpreparation : preparation? caps params (s.begun method params isRequest) =
      preparation? caps params s := by
    obtain ⟨root, hroot, -⟩ := isReading_rootOf (γ := γ) params
    obtain ⟨folders, hfolders, -⟩ := isReading_foldersOf (γ := γ) params
    obtain ⟨trace, htrace, -⟩ := isReading_traceOf (γ := γ) params
    have hsame : (s.begun method params isRequest).trace = s.trace := rfl
    simp only [preparation?, after_reading_bind hroot, after_reading_bind hfolders,
      after_reading_bind htrace, hsame]
    cases root s.trace <;> cases folders s.trace <;> cases trace s.trace <;> rfl
  unfold remarks remarksFor
  simp only [hpreparation]
  rfl

/-! ## One message -/

/-- No message is being handled, and nothing is held back. -/
structure IsIdle (s : Session γ) : Prop where
  dispatching : s.dispatching = false
  deferred : s.deferred = []

/-- Whether a value is a text. -/
def isText : Json → Bool
  | .str _ => true
  | _ => false

/-- Whether a message is the client's response to a request. -/
def isClientResponse (v : Json) : Bool :=
  (v.fieldOrNull "method").isNull && ((v.field? "result").isSome || (v.field? "error").isSome)

/-- Whether a message is answered: a value that is no object, or an object that is no response of
the client and whose method is no text or which has an identifier. -/
def awaitsResponse : Json → Bool
  | .obj members =>
    !isClientResponse (.obj members) &&
      (!isText ((Json.obj members).fieldOrNull "method") || ((Json.obj members).field? "id").isSome)
  | _ => true

theorem awaitsResponse_of_methodOf? {v : Json} {method : String} (h : methodOf? v = some method) :
    awaitsResponse v = (v.field? "id").isSome := by
  unfold methodOf? at h
  split at h
  · next members =>
    unfold awaitsResponse isClientResponse
    cases hmethod : (Json.obj members).fieldOrNull "method" with
    | str name =>
      simp only [hmethod, isText, Json.isNull, Bool.false_and, Bool.not_false, Bool.true_and,
        Bool.not_true, Bool.false_or]
    | _ => simp [hmethod] at h
  · cases h

/-- A message that is not handled with a method is rejected with a response, or is a response of the
client and ignored. -/
theorem receive_unhandled (caps : Capabilities γ) {v : Json} (h : methodOf? v = none) :
    awaitsResponse v = false ∧ receive caps v = pure () ∨
      awaitsResponse v = true ∧ ∃ id e, receive caps v = send (.failure id e) := by
  cases v with
  | obj members =>
    unfold methodOf? at h
    unfold receive awaitsResponse isClientResponse
    simp only at h ⊢
    cases hmethod : (Json.obj members).fieldOrNull "method" with
    | str name =>
      simp only [hmethod] at h ⊢
      split at h
      · next hid =>
        have hsome : ((Json.obj members).field? "id").isSome = true := by
          cases hfield : (Json.obj members).field? "id" with
          | none => simp [hfield] at hid
          | some id => rfl
        exact .inr ⟨by simp only [hsome, Json.isNull, Bool.false_and, Bool.not_false, Bool.or_true,
          Bool.and_self], _, _, by rw [if_pos hid]; rfl⟩
      · cases h
    | null =>
      by_cases hresponse : (((Json.obj members).field? "result").isSome ||
          ((Json.obj members).field? "error").isSome) = true
      · exact .inl ⟨by simp only [hresponse, Json.isNull, Bool.and_self, Bool.not_true,
          Bool.false_and], by simp only [if_pos hresponse]⟩
      · have hnone := Bool.eq_false_iff.2 hresponse
        exact .inr ⟨by simp only [hnone, isText, Bool.and_false, Bool.not_false, Bool.true_or,
          Bool.and_self], _, _, by simp only [if_neg hresponse]; rfl⟩
    | _ => exact .inr ⟨by simp [isText, Json.isNull], _, _, rfl⟩
  | _ => exact .inr ⟨rfl, _, _, rfl⟩

theorem ok_of_after {x : Serving γ Unit} {s s' : Session γ} (h : x.after s = (.ok (), s')) :
    x s = .ok () s' := by
  unfold after at h
  cases hx : x s with
  | ok u t =>
    rw [hx] at h
    rw [(Prod.mk.inj h).2]
  | error e t => simp [hx] at h

/-- The response to a message, if it has an identifier, is one; no response publishes
anything. -/
theorem countP_isResponse_response (id : Option Json) (method : String) {x : Except Fault Json} :
    (response id method x).countP (·.isResponse) = (if id.isSome then 1 else 0) ∧
      ∀ m ∈ response id method x, m.isPublication = false := by
  cases x with
  | ok value => cases id <;> simp [response, Outbound.isResponse, Outbound.isPublication]
  | error f =>
    cases f <;> cases id <;> simp [response, Outbound.isResponse, Outbound.isPublication]

theorem isRemark_receipt (s : Session γ) (method : String) (params : Json) (isRequest : Bool) :
    ∀ m ∈ s.receipt method params isRequest, m.isRemark = true := by
  unfold receipt
  split <;> simp [Outbound.isRemark]

/-- A message that is handled with a method is handled to its end: remarks are sent, then the response,
and then what the capabilities published. -/
theorem receive_handled (hcaps : caps.SpareChannel) (hs : s.failing = 0) (hidle : s.IsIdle) {v : Json}
    {method : String} (hmethod : methodOf? v = some method) :
    ∃ s' remarks x, receive caps v s = .ok () s' ∧ s'.failing = 0 ∧ s'.IsIdle ∧
      s'.outbox = s.outbox ++ (remarks ++ response (v.field? "id") method x) ++
        publications (heard caps s v) ∧
      ∀ m ∈ remarks, m.isRemark = true := by
  have hheard : heard caps s v = remarks caps method (paramsOf v) s := by simp [heard, hmethod]
  obtain ⟨hadvances, hspares⟩ := says_dispatch (s := s.begun method (paramsOf v)
    (v.field? "id").isSome) hcaps hs rfl method (paramsOf v) (v.field? "id").isSome
  rw [remarks_begun, ← hheard] at hadvances
  have hreceive := after_process hs caps (v.field? "id") method (paramsOf v)
  rw [← receive_eq_process caps hmethod] at hreceive
  cases hdispatch : (dispatch caps method (paramsOf v) (v.field? "id").isSome).after
      (s.begun method (paramsOf v) (v.field? "id").isSome) with
  | mk x t =>
  rw [hdispatch] at hadvances hspares hreceive
  simp only at hadvances hspares hreceive
  rw [after_conclude (hadvances.failing.trans hs) (v.field? "id") method hspares] at hreceive
  obtain ⟨said, hsaid, hremarks⟩ := hadvances.outbox
  refine ⟨_, s.receipt method (paramsOf v) (v.field? "id").isSome ++ said, x, ok_of_after hreceive,
    hadvances.failing.trans hs, ⟨rfl, rfl⟩, ?_, fun m hm => ?_⟩
  · simp only [finished, hsaid, hadvances.deferred, begun, hidle.deferred, List.append_assoc,
      List.nil_append]
  · rcases List.mem_append.1 hm with hm | hm
    · exact isRemark_receipt s method _ _ m hm
    · exact hremarks m hm

/-- Handling a message is disciplined.  As long as messages can be sent and no action of the
capabilities fails in the name of the channel, a message that arrives while no other is being handled
is handled to its end, whatever it is and whatever the capabilities say, yield or fail with.
It is answered exactly once if it awaits a response, and not at all otherwise.  All diagnostics that
the capabilities pushed are sent behind everything else, in order and each of them once. -/
theorem receive_disciplined (hcaps : caps.SpareChannel) (hs : s.failing = 0) (hidle : s.IsIdle)
    (v : Json) :
    ∃ s' front, receive caps v s = .ok () s' ∧ s'.failing = 0 ∧ s'.IsIdle ∧
      s'.outbox = s.outbox ++ front ++ publications (heard caps s v) ∧
      front.countP (·.isResponse) = (if awaitsResponse v then 1 else 0) ∧
      ∀ m ∈ front, m.isPublication = false := by
  cases hmethod : methodOf? v with
  | none =>
    have hheard : heard caps s v = [] := by simp [heard, hmethod]
    rw [hheard]
    rcases receive_unhandled caps hmethod with ⟨hawaits, hreceive⟩ | ⟨hawaits, id, e, hreceive⟩
    · exact ⟨s, [], by rw [hreceive]; rfl, hs, hidle, by simp [publications], by simp [hawaits],
        nofun⟩
    · exact ⟨{ s with outbox := s.outbox ++ [.failure id e] }, [.failure id e],
        ok_of_after (by rw [hreceive]; exact after_send hs), hs,
        ⟨hidle.dispatching, hidle.deferred⟩, by simp [publications],
        by simp [hawaits, Outbound.isResponse], by simp [Outbound.isPublication]⟩
  | some method =>
    obtain ⟨s', remarks, x, hreceive, hworking, hidle', houtbox, hremarks⟩ :=
      receive_handled hcaps hs hidle hmethod
    obtain ⟨hresponses, hsilent⟩ := countP_isResponse_response (v.field? "id") method (x := x)
    refine ⟨s', _, hreceive, hworking, hidle', houtbox, ?_, fun m hm => ?_⟩
    · have hquiet : remarks.countP (·.isResponse) = 0 :=
        List.countP_eq_zero.2 fun m hm => by simp [Outbound.isResponse_of_isRemark (hremarks m hm)]
      rw [List.countP_append, hquiet, hresponses, awaitsResponse_of_methodOf? hmethod]
      simp
    · rcases List.mem_append.1 hm with hm | hm
      · exact Outbound.isPublication_of_isRemark (hremarks m hm)
      · exact hsilent m hm

/-- Capabilities that publish twice and log when a document is closed, and then break down. -/
def brittleCapabilities : Capabilities (List Call) :=
  .scripted ⟨"brittle", none⟩
    { documentClosed :=
      { pushes := [("b", some 1), ("a", none)], logs := ["closing"], breakdown := some "worn out" } }

/-- The request to close a document. -/
def closingRequest : Json :=
  .obj [("id", .int 7), ("method", .str Method.didClose.name),
    ("params", .obj [("textDocument", .obj [("uri", .str "b")])])]

/-- Also if the capabilities break down, what they published follows the one response. -/
theorem receive_disciplined_brittle :
    ∃ s' front, receive brittleCapabilities closingRequest { lifecycle := .initialized, host := [] }
        = .ok () s' ∧ s'.failing = 0 ∧ s'.IsIdle ∧
      s'.outbox = front ++ [.publish "b" (some 1) [], .publish "a" none []] ∧
      front.countP (·.isResponse) = 1 ∧ ∀ m ∈ front, m.isPublication = false := by
  obtain ⟨s', front, hreceive, hworking, hidle, houtbox, hcount, hfront⟩ :=
    receive_disciplined (s := { lifecycle := .initialized, host := [] })
      (spareChannel_scripted ⟨"brittle", none⟩ _) rfl ⟨rfl, rfl⟩ closingRequest
  refine ⟨s', front, hreceive, hworking, hidle, ?_, ?_, hfront⟩
  · rw [houtbox]
    rfl
  · rw [hcount]
    rfl

end Session

end LanguageServer
