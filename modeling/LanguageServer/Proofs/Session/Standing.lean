import LanguageServer.Proofs.Session.Concord
import LanguageServer.Proofs.Workspace.Parallel
import LanguageServer.Toy.Engine

/-!
# Sessions in which compiling was stopped

A path that cannot be resolved, or an engine that does not come to an end, stops the
compilation that a message asks for.  The documents and the settings that the message
brought are kept, but what is known of them is not; the next message that brings documents
or settings and is handled to its end makes up for that.

Two sessions whose workspaces are alike, or were until compiling was stopped in both, treat
every message in the same way, as long as nothing relies on what is not known.

## Main definitions

* `Method.isRevision` — whether a method brings documents or settings, which are compiled.
* `Method.isReliant` — whether a method relies on the latest program.
* `Session.stopsAt` — whether compiling is stopped after a message.
* `Session.Matched` — the workspaces of two sessions stand for each other.

## Main statements

* `Session.agree_receive` — a message has the same outcome in both sessions.
-/

namespace LanguageServer

open Workspace

namespace Method

/-- Whether a method brings documents or settings, which are compiled. -/
def isRevision : Method → Bool
  | .didChangeConfiguration => true
  | .didOpen => true
  | .didChange => true
  | _ => false

/-- Whether a method asks about a place in a document. -/
def isQuery : Method → Bool
  | .definition => true
  | .documentHighlight => true
  | .references => true
  | _ => false

/-- Whether a method relies on the latest program: a query is answered from it, and closing a
document forgets what it does not lead to. -/
def isReliant (m : Method) : Bool := m.isQuery || m == .didClose

theorem ofName?_name (m : Method) : ofName? m.name = some m := by cases m <;> rfl

end Method

namespace Session

open Serving

variable {γ : Type}

/-! ## Whether compiling is stopped -/

/-- The method with which an initialised session handles a message. -/
def handled? (s : Session γ) (v : Json) : Option Method :=
  if s.lifecycle = .initialized then (methodOf? v).bind Method.ofName? else none

/-- Whether compiling is stopped after a method yielded something. -/
def staysStopped (m : Method) (stopped : Bool) : Except Fault Json → Bool
  | .ok _ => !m.isRevision && stopped
  | .error f => stopped || (m.isRevision && f.stopsCompiling)

/-- Whether compiling is stopped after a message with a method was dispatched. -/
def stopsDispatching (caps : Capabilities γ) (s : Session γ) (stopped : Bool) (method : String)
    (params : Json) (isRequest : Bool) : Bool :=
  match Method.ofName? method with
  | some m =>
    if s.lifecycle = .initialized then
      staysStopped m stopped ((dispatch caps method params isRequest).after s).1
    else stopped
  | none => stopped

/-- Whether compiling is stopped after a message. -/
def stopsAt (caps : Capabilities γ) (s : Session γ) (stopped : Bool) (v : Json) : Bool :=
  match methodOf? v with
  | some method =>
    stopsDispatching caps (s.begun method (paramsOf v) (v.field? "id").isSome) stopped method
      (paramsOf v) (v.field? "id").isSome
  | none => stopped

theorem staysStopped_of_not_isRevision {m : Method} (h : m.isRevision = false) (stopped : Bool)
    (x : Except Fault Json) : staysStopped m stopped x = stopped := by
  cases x <;> simp [staysStopped, h]

theorem staysStopped_refused (m : Method) (stopped : Bool) (e : RequestError) :
    staysStopped m stopped (.error (.refused e)) = stopped := by
  simp [staysStopped, Fault.stopsCompiling]

/-! ## Accepting -/

/-- Whether a message is accepted depends on the lifecycle only. -/
theorem exists_accepts (method : String) (isRequest : Bool) (l : Lifecycle) :
    ∃ x : Except Fault Bool,
      (∀ s : Session γ, s.lifecycle = l → (accepts method isRequest).after s = (x, s)) ∧
      (x = .ok true ∧ admits l method = true ∨
        admits l method = false ∧ (x = .ok false ∨ ∃ e, x = .error (.refused e))) := by
  unfold accepts admits
  simp only [after_bind, after_get]
  by_cases hexit : method = Method.exit.name
  · exact ⟨.ok true, fun s _ => by simp [hexit], .inl ⟨rfl, by simp [hexit]⟩⟩
  · by_cases hinit : method = Method.initialise.name
    · subst hinit
      cases l with
      | uninitialized =>
        exact ⟨.ok true, fun s hl => by simp [hexit, hl], .inl ⟨rfl, by simp⟩⟩
      | shuttingDown =>
        cases isRequest with
        | true =>
          exact ⟨_, fun s hl => by simp only [hexit, hl, if_false, if_true]; rfl,
            .inr ⟨by simp [hexit], .inr ⟨_, rfl⟩⟩⟩
        | false =>
          exact ⟨_, fun s hl => by simp only [hexit, hl, if_false, Bool.false_eq_true]; rfl,
            .inr ⟨by simp [hexit], .inl rfl⟩⟩
      | _ =>
        exact ⟨_, fun s hl => by simp only [hexit, hl, if_false, if_true]; rfl,
          .inr ⟨by simp [hexit], .inr ⟨_, rfl⟩⟩⟩
    · cases l with
      | initialized =>
        exact ⟨.ok true, fun s hl => by simp [hexit, hinit, hl], .inl ⟨rfl, by simp [hinit]⟩⟩
      | exited =>
        exact ⟨.ok true, fun s hl => by simp [hexit, hinit, hl], .inl ⟨rfl, by simp [hinit]⟩⟩
      | _ =>
        cases isRequest with
        | true =>
          exact ⟨_, fun s hl => by simp only [hexit, hinit, hl, if_false, if_true]; rfl,
            .inr ⟨by simp [hexit, hinit], .inr ⟨_, rfl⟩⟩⟩
        | false =>
          exact ⟨_, fun s hl => by simp only [hexit, hinit, hl, if_false, Bool.false_eq_true]; rfl,
            .inr ⟨by simp [hexit, hinit], .inl rfl⟩⟩

/-- A message that is not accepted leaves the session as it is, and so does one with an unknown
method; any other is handled. -/
theorem exists_dispatch (caps : Capabilities γ) (method : String) (params : Json) (isRequest : Bool)
    (l : Lifecycle) :
    (∃ x : Except Fault Json, (∀ f, x = .error f → ∃ e, f = .refused e) ∧
      (admits l method = false ∨ Method.ofName? method = none) ∧
      ∀ s : Session γ, s.lifecycle = l → (dispatch caps method params isRequest).after s = (x, s)) ∨
    admits l method = true ∧ ∃ m, Method.ofName? method = some m ∧
      ∀ s : Session γ, s.lifecycle = l →
        (dispatch caps method params isRequest).after s = (handle caps m params).after s := by
  obtain ⟨x, hx, hcases⟩ := exists_accepts (γ := γ) method isRequest l
  have hdispatch {s : Session γ} (hl : s.lifecycle = l) :
      (dispatch caps method params isRequest).after s =
        match x with
        | .ok accepted => (if accepted then
            match Method.ofName? method with
            | some m => handle caps m params
            | none =>
              if isRequest then refuse .methodNotFound ("Unknown method " ++ method)
              else return .null
          else return .null : Serving γ Json).after s
        | .error e => (.error e, s) := by
    unfold dispatch
    rw [after_bind, hx s hl]
    cases x <;> rfl
  rcases hcases with ⟨rfl, hadmits⟩ | ⟨hadmits, rfl | ⟨e, rfl⟩⟩
  · cases hname : Method.ofName? method with
    | some m =>
      refine .inr ⟨hadmits, m, rfl, fun s hl => ?_⟩
      rw [hdispatch hl]
      simp only [hname, if_true]
    | none =>
      left
      cases isRequest with
      | true =>
        refine ⟨.error (.refused (.of .methodNotFound ("Unknown method " ++ method))),
          fun f hf => ⟨_, (Except.error.inj hf).symm⟩, .inr rfl, fun s hl => ?_⟩
        rw [hdispatch hl]
        simp only [hname, if_true]
        rfl
      | false =>
        refine ⟨.ok .null, fun _ => nofun, .inr rfl, fun s hl => ?_⟩
        rw [hdispatch hl]
        simp only [hname, if_true]
        rfl
  · exact .inl ⟨.ok .null, fun _ => nofun, .inl hadmits, fun s hl => by rw [hdispatch hl]; rfl⟩
  · exact .inl ⟨.error (.refused e), fun f hf => ⟨e, (Except.error.inj hf).symm⟩, .inl hadmits,
      fun s hl => by rw [hdispatch hl]⟩

/-! ## Matched sessions -/

variable {env : Environment} {id : ServerId} {budget : Nat} {stopped : Bool}

/-- What a message about documents asks of the compiler has the same effect in two workspaces that
stand for each other, unless it relies on what is not known. -/
theorem twins_deed (henv : env.IsToy budget) {m : Method} {params : Json}
    {a : Action Workspace Json} (ha : deed? (.ofCompiler env id) m params = some a)
    (hcalm : stopped = true → m.isReliant = false) :
    a.Twins (Alike env) (fun f => Standing env (staysStopped m stopped (.error f)))
      (Standing env stopped) fun x => Standing env (staysStopped m stopped (.ok x)) := by
  have hrevision {a : Action Workspace Unit} (h : Renews env stopped a) :
      (do a; return Json.null : Action Workspace Json).Twins (Alike env)
        (fun f => Standing env (stopped || f.stopsCompiling)) (Standing env stopped)
        fun _ => Standing env false :=
    .bind h fun _ => .pure _ fun _ _ h => h.standing false
  have hreliant {α : Type} {a : Action Workspace α} (h : Parallel env (Alike env)
      (fun _ => Alike env) a) (hcalm : stopped = false) (f : α → Json) :
      (do return f (← a) : Action Workspace Json).Twins (Alike env)
        (fun _ => Standing env stopped) (Standing env stopped) fun _ => Standing env stopped :=
    .bind (S := fun _ => Standing env stopped) ((h.weaken fun _ _ h => h.alike hcalm).imp
      (fun _ _ h => h) (fun _ _ _ h => h.standing _) fun _ _ _ h => h.standing _) fun _ =>
      .pure _ fun _ _ h => h
  have hrest (hreliant : m.isReliant = true) : stopped = false := by
    simpa [hreliant] using hcalm
  have hkept (hm : m.isRevision = false) (x : Except Fault Json) :
      staysStopped m stopped x = stopped := staysStopped_of_not_isRevision hm stopped x
  cases isDeed_of_deed? ha with
  | initialised =>
    simp only [hkept rfl]
    exact .bind (S := fun _ => Standing env stopped) (.pure () fun _ _ h => h) fun _ =>
      .pure _ fun _ _ h => h
  | settings => exact hrevision (renews_changeSettings henv stopped _)
  | opened _ => exact hrevision (renews_openDocument henv stopped _)
  | changed _ => exact hrevision (renews_changeDocument henv stopped _ _ _)
  | closed _ =>
    simp only [hkept rfl]
    exact hreliant (parallel_closeDocument henv _) (hrest rfl) fun _ => Json.null
  | definition _ =>
    simp only [hkept rfl]
    exact hreliant (parallel_query reads_definition henv _ _) (hrest rfl) _
  | highlights _ =>
    simp only [hkept rfl]
    exact hreliant (parallel_query reads_highlights henv _ _) (hrest rfl) _
  | references _ =>
    simp only [hkept rfl]
    exact hreliant (parallel_query reads_references henv _ _) (hrest rfl) _

/-- The workspaces of two sessions stand for each other; before the initialisation there are no
documents. -/
structure Matched (env : Environment) (stopped : Bool) (l : Lifecycle) (ws ws' : Workspace) :
    Prop where
  standing : Standing env stopped ws ws'
  idle : l = .uninitialized → Idle env ws ws'

theorem Matched.leave {l l' : Lifecycle} {ws ws' : Workspace} (h : Matched env stopped l ws ws')
    (hne : l' ≠ .uninitialized) : Matched env stopped l' ws ws' :=
  ⟨h.standing, fun heq => absurd heq hne⟩

theorem matched_idle {l : Lifecycle} {ws ws' : Workspace} (h : Idle env ws ws') :
    Matched env stopped l ws ws' := ⟨h.alike.standing stopped, fun _ => h⟩

/-- An initialisation has the same outcome in matched sessions. -/
theorem agree_initialise_matched {s s' : Session Workspace}
    (h : Accords (Matched env stopped) s s') (hl : s.lifecycle = .uninitialized) (params : Json) :
    Agree (Accords (Matched env stopped)) (handleInitialise (.ofCompiler env id) params)
      (handleInitialise (.ofCompiler env id) params) s s' := by
  refine agree_initialise (fun _ _ _ _ hne h => h.leave hne) (fun root folders options => ?_) h hl
    params
  have hprepare : Prepares env (prepare env id root folders options) :=
    prepares_prepare id root folders options
  exact (hprepare.weaken fun _ _ h => h.idle rfl).imp (fun _ _ => matched_idle)
    (fun _ _ _ => matched_idle) fun _ _ _ => matched_idle

/-- What a message asks of the compiler has the same outcome in matched sessions. -/
theorem agree_perform_deed (henv : env.IsToy budget) {m : Method} {params : Json}
    {a : Action Workspace Json} (ha : deed? (.ofCompiler env id) m params = some a)
    (hcalm : stopped = true → m.isReliant = false) {s s' : Session Workspace}
    (h : Accords (Matched env stopped) s s') (hl : s.lifecycle ≠ .uninitialized) :
    Agree (Accords (Matched env (staysStopped m stopped ((perform a).after s).1)))
      (perform a) (perform a) s s' := by
  obtain ⟨hresult, hstate⟩ := accords_perform (twins_deed henv ha hcalm) h h.hosts.standing
  obtain ⟨hok, herror⟩ := hstate.hosts
  refine ⟨hresult, hstate.same, hstate.working, ?_, fun heq => ?_⟩
  · cases hx : ((perform a).after s).1 with
    | ok x => exact hok x hx
    | error f => exact (herror f hx).elim (fun h => h) fun halike => halike.standing _
  · rw [lifecycle_perform] at heq
    exact absurd heq hl

/-- A method that is passed on is accepted only in an initialised session. -/
theorem lifecycle_of_admits {l : Lifecycle} {m : Method} (h : admits l m.name = true)
    (hdelegated : m.isDelegated = true) : l = .initialized ∨ l = .exited := by
  cases l with
  | initialized => exact .inl rfl
  | exited => exact .inr rfl
  | _ =>
    cases m <;> first | exact absurd h (by decide) | exact absurd hdelegated (by decide)

/-- Whether compiling is stopped does not change if a message is not handled. -/
theorem stopsDispatching_of_unhandled {caps : Capabilities γ} {s : Session γ} {method : String}
    {params : Json} {isRequest : Bool}
    (h : admits s.lifecycle method = false ∨ Method.ofName? method = none) :
    stopsDispatching caps s stopped method params isRequest = stopped := by
  unfold stopsDispatching
  split
  · next m hname =>
    split
    · next hl =>
      refine staysStopped_of_not_isRevision ?_ _ _
      have hadmits := h.resolve_right (by simp [hname])
      rw [hl, name_of_ofName? hname] at hadmits
      cases m <;> first | rfl | exact absurd hadmits (by decide)
    · rfl
  · rfl

/-- A method that is accepted has the same outcome in matched sessions, unless it relies on what is not
known. -/
theorem agree_handle_matched (id : ServerId) (henv : env.IsToy budget) {s s' : Session Workspace}
    (h : Accords (Matched env stopped) s s') (hexited : s.lifecycle ≠ .exited) {m : Method}
    (hadmits : admits s.lifecycle m.name = true)
    (hcalm : s.lifecycle = .initialized → stopped = true → m.isReliant = false) (params : Json) :
    Agree (Accords (Matched env
        (if s.lifecycle = .initialized then
          staysStopped m stopped ((handle (.ofCompiler env id) m params).after s).1
        else stopped)))
      (handle (.ofCompiler env id) m params) (handle (.ofCompiler env id) m params) s s' := by
  cases hdelegated : m.isDelegated with
  | true =>
    have hl : s.lifecycle = .initialized :=
      (lifecycle_of_admits hadmits hdelegated).resolve_right hexited
    rw [if_pos hl]
    rcases handle_delegated (.ofCompiler env id) hdelegated params with
      ⟨a, ha, hperform⟩ | ⟨-, e, hrefuse⟩
    · have hagree := agree_perform_deed henv ha (hcalm hl) h (by simp [hl])
      constructor <;> rw [hperform, hperform]
      · exact hagree.result
      · exact hagree.state
    · constructor <;> rw [hrefuse, hrefuse]
      rw [staysStopped_refused]
      exact h
  | false =>
    -- Nothing that is not passed on can stop compiling.
    rw [staysStopped_of_not_isRevision (by cases m <;> first | rfl | cases hdelegated), ite_self]
    by_cases hinit : m = .initialise
    · subst hinit
      refine agree_initialise_matched h ?_ params
      cases hl : s.lifecycle with
      | uninitialized => rfl
      | exited => exact absurd hl hexited
      | _ =>
        rw [hl] at hadmits
        exact absurd hadmits (by decide)
    · exact relates_handle (fun _ _ _ _ hne h => h.leave hne) _ hdelegated hinit params s s' h

/-- A message has the same outcome in matched sessions when it is dispatched, unless it relies on
what is not known. -/
theorem agree_dispatch (henv : env.IsToy budget) {s s' : Session Workspace}
    (h : Accords (Matched env stopped) s s') (hexited : s.lifecycle ≠ .exited) {method : String}
    (hcalm : s.lifecycle = .initialized → stopped = true →
      ∀ m, Method.ofName? method = some m → m.isReliant = false) (params : Json)
    (isRequest : Bool) :
    Agree (Accords (Matched env
        (stopsDispatching (.ofCompiler env id) s stopped method params isRequest)))
      (dispatch (.ofCompiler env id) method params isRequest)
      (dispatch (.ofCompiler env id) method params isRequest) s s' := by
  rcases exists_dispatch (.ofCompiler env id) method params isRequest s.lifecycle with
    ⟨x, hrefused, hwhen, hdispatch⟩ | ⟨hadmits, m, hname, hdispatch⟩
  · rw [stopsDispatching_of_unhandled hwhen]
    constructor <;> rw [hdispatch s rfl, hdispatch s' h.lifecycle_eq]
    exact h
  · obtain rfl := name_of_ofName? hname
    have hflag : stopsDispatching (.ofCompiler env id) s stopped m.name params isRequest =
        if s.lifecycle = .initialized then
          staysStopped m stopped ((handle (.ofCompiler env id) m params).after s).1
        else stopped := by
      simp only [stopsDispatching, hname, hdispatch s rfl]
    obtain ⟨hresult, hstate⟩ := agree_handle_matched id henv h hexited hadmits
      (fun hl hstopped => hcalm hl hstopped m hname) params
    rw [hflag]
    constructor <;> rw [hdispatch s rfl, hdispatch s' h.lifecycle_eq]
    · exact hresult
    · exact hstate

/-- A message has the same outcome in matched sessions, unless it relies on what is not known. -/
theorem agree_receive (henv : env.IsToy budget) {s s' : Session Workspace}
    (h : Accords (Matched env stopped) s s') (hexited : s.lifecycle ≠ .exited) {v : Json}
    (hcalm : stopped = true → ∀ m, handled? s v = some m → m.isReliant = false) :
    Agree (Accords (Matched env (stopsAt (.ofCompiler env id) s stopped v)))
      (receive (.ofCompiler env id) v) (receive (.ofCompiler env id) v) s s' := by
  cases hmethod : methodOf? v with
  | none =>
    simp only [stopsAt, hmethod]
    rcases receive_unhandled (.ofCompiler env id) hmethod with
      ⟨-, hreceive⟩ | ⟨-, id, e, hreceive⟩
    · rw [hreceive]
      exact ⟨rfl, h⟩
    · rw [hreceive]
      exact relates_send _ s s' h
  | some method =>
    simp only [stopsAt, hmethod]
    rw [receive_eq_process _ hmethod]
    refine agree_process h (agree_dispatch henv (h.begun _ _ _) hexited ?_ _ _)
    intro hl hstopped m hname
    refine hcalm hstopped m ?_
    simp only [handled?, show s.lifecycle = .initialized from hl, hmethod, if_true]
    exact hname

end Session

end LanguageServer
