import LanguageServer.Proofs.Session.Reached

/-!
# Refused messages

A message that is refused changes no documents: what can be refused is refused before
anything happens to them, and what may fail afterwards is reported as a fault of the server.

## Main definitions

* `Workspace.RefusesFirst` — an action that is refused leaves the documents as they were.
* `Session.refusal?` — the refusal that a message ends with.

## Main statements

* `Session.store_of_refusal?` — a message that is refused leaves the documents as they were.
* `Session.store_of_failure` — so does one whose parameters are answered to be invalid.
-/

namespace LanguageServer

namespace Workspace

variable {env : Environment} {α β : Type}

/-! ## Actions that refuse first -/

/-- Whenever the action is refused, the documents are as they were. -/
def RefusesFirst (a : Action Workspace α) : Prop :=
  ∀ ws e, (a.run ws).result = .error (.refused e) → (a.run ws).state.store = ws.store

/-- Whatever the action does, the documents stay, wherever it is stopped. -/
def LeavesDocuments (a : Action Workspace α) : Prop :=
  ∀ store : DocumentStore, a.Steady (fun _ => True) fun ws => ws.store = store

theorem LeavesDocuments.refusesFirst {a : Action Workspace α} (ha : LeavesDocuments a) :
    RefusesFirst a := fun ws _ _ => (ha ws.store ws rfl).2

theorem refusesFirst_of_failsInside {a : Action Workspace α} (ha : a.FailsInside) :
    RefusesFirst a := fun _ _ h => absurd h ha.not_refused

/-- What leaves the documents may come before what refuses first. -/
theorem LeavesDocuments.bind_refusesFirst {a : Action Workspace α} {f : α → Action Workspace β}
    (ha : LeavesDocuments a) (hf : ∀ x, RefusesFirst (f x)) : RefusesFirst (a >>= f) := by
  intro ws e h
  have hstore := (ha ws.store ws rfl).2
  cases hrun : a.run ws with
  | mk said result ws' =>
    rw [hrun] at hstore
    cases result with
    | error fault =>
      rw [Action.run_bind_error hrun]
      exact hstore
    | ok x =>
      rw [Action.run_bind_ok hrun] at h ⊢
      exact (hf x ws' e h).trans hstore

theorem Discreet.leavesDocuments {a : Action Workspace α} (ha : Discreet a) : LeavesDocuments a :=
  fun _ ws h => ⟨fun entry hentry _ => ((ha ws).1 entry hentry).2.store.trans h,
    (ha ws).2.store.trans h⟩

theorem leavesDocuments_validateAll (env : Environment) : LeavesDocuments (validateAll env) :=
  fun _ => .bind ((discreet_compile env).leavesDocuments _) fun _ =>
    .bind ((discreet_diagnosticsByUri env _).leavesDocuments _) fun _ => .bind .state fun _ =>
      .forAll (fun _ => .bind .state fun _ => publish_steady (fun _ _ h => h) _ _ _) _

end Workspace

open Workspace

variable {env : Environment}

/-! ## Capabilities -/

theorem leavesDocuments_require (uri : String) : LeavesDocuments (require uri) :=
  fun _ => require_steady _ _ uri

theorem leavesDocuments_requireValue (v : Json) : LeavesDocuments (requireValue v) :=
  fun _ => requireValue_steady _ _ v

theorem leavesDocuments_changeSettings (settings : Json) :
    LeavesDocuments (changeSettings env settings) := by
  intro store
  refine .bind (.bind .state fun _ => .bind (.update fun _ h => h) fun _ => .bind (.ofExcept _ _)
    fun _ => .forAll (fun _ => .say _) _) fun _ => .bind .state fun _ => ?_
  split
  · exact leavesDocuments_validateAll env store
  · exact .pure _

theorem refusesFirst_openDocument (d : Params.Opened) : RefusesFirst (openDocument env d) :=
  refusesFirst_of_failsInside (.bind (.update _) fun _ => failsInside_validate _)

/-- A change is refused before the documents are replaced, or not at all. -/
theorem refusesFirst_changeDocument (uri : Json) (version : Option Int) (changes : List ContentChange) :
    RefusesFirst (changeDocument env uri version changes) := by
  refine (leavesDocuments_requireValue uri).bind_refusesFirst fun uri => ?_
  refine LeavesDocuments.bind_refusesFirst (fun _ => .state) fun ws => ?_
  split
  · exact refusesFirst_of_failsInside (.bind (.update _) fun _ => failsInside_validateAll)
  · exact fun _ _ _ => rfl

theorem refusesFirst_closeDocument (uri : String) : RefusesFirst (closeDocument uri) :=
  (leavesDocuments_require uri).bind_refusesFirst fun _ => refusesFirst_of_failsInside <|
    .bind .state fun _ => .bind (.inner (fun _ => rfl) _) fun _ => .bind (.update _) fun _ =>
      .bind (.bind .state fun _ => failsInside_publish _ _ _) fun _ =>
        .bind failsInside_collectGarbage fun _ => .pure _

namespace Session

open Serving

variable {id : ServerId}

/-- What a message asks of the compiler is refused before the documents change, or not at all. -/
theorem refusesFirst_deed {m : Method} {params : Json} {a : Action Workspace Json}
    (ha : deed? (.ofCompiler env id) m params = some a) : RefusesFirst a := by
  have hmapped {α : Type} {f : α → Json} {a : Action Workspace α} (h : RefusesFirst a) :
      RefusesFirst (do return f (← a) : Action Workspace Json) := by
    intro ws e
    rw [Action.run_bind_pure]
    cases hresult : (a.run ws).result with
    | ok x => exact nofun
    | error fault =>
      intro heq
      exact h ws e (hresult.trans (congrArg Except.error (Except.error.inj heq)))
  cases isDeed_of_deed? ha with
  | initialised => exact hmapped (f := fun _ : Unit => Json.null) fun _ _ => nofun
  | settings =>
    exact hmapped (f := fun _ : Unit => Json.null) (leavesDocuments_changeSettings _).refusesFirst
  | opened _ => exact hmapped (f := fun _ : Unit => Json.null) (refusesFirst_openDocument _)
  | changed _ =>
    exact hmapped (f := fun _ : Unit => Json.null) (refusesFirst_changeDocument _ _ _)
  | closed _ => exact hmapped (f := fun _ : Unit => Json.null) (refusesFirst_closeDocument _)
  | definition _ =>
    exact hmapped (discreet_query env reads_definition _ _).leavesDocuments.refusesFirst
  | highlights _ =>
    exact hmapped (discreet_query env reads_highlights _ _).leavesDocuments.refusesFirst
  | references _ =>
    exact hmapped (discreet_query env reads_references _ _).leavesDocuments.refusesFirst

/-! ## Messages -/

/-- A message that is refused while it is dispatched leaves the documents as they were. -/
theorem store_of_dispatch_refused {s t : Session Workspace} {method : String} {params : Json}
    {isRequest : Bool} {e : RequestError}
    (h : (dispatch (.ofCompiler env id) method params isRequest).after s = (.error (.refused e), t)) :
    t.host.store = s.host.store := by
  rcases exists_dispatch (.ofCompiler env id) method params isRequest s.lifecycle with
    ⟨x, -, -, hdropped⟩ | ⟨-, m, -, hhandled⟩
  · rw [hdropped s rfl] at h
    rw [← (Prod.mk.inj h).2]
  · rw [hhandled s rfl] at h
    cases hdelegated : m.isDelegated with
    | true =>
      rcases handle_delegated (.ofCompiler env id) hdelegated params with
        ⟨a, ha, hperform⟩ | ⟨-, e', hrefuse⟩
      · have hcases := perform_cases a s
        rw [← hperform s, h] at hcases
        rcases hcases with ⟨hresult, hhost⟩ | ⟨reason, hreason⟩ | ⟨-, -, -, -, version, hversion⟩
        · rw [show t.host = _ from hhost]
          exact refusesFirst_deed ha s.host e hresult.symm
        · cases hreason
        · cases hversion
      · rw [hrefuse s] at h
        rw [← (Prod.mk.inj h).2]
    | false =>
      have hkept : Preserves (fun t : Session Workspace => t.host.store = s.host.store)
          (handle (.ofCompiler env id) m params) :=
        handle_own_preserves_host (J := fun ws : Workspace => ws.store = s.host.store) hdelegated
          fun root folders options =>
            prepare_steady (fun _ _ h => h) (fun _ _ h => h) id root folders options
      have hleft := hkept s rfl
      rwa [h] at hleft

/-- The refusal that a message ends with: a request is answered with it, and for a notification it is
logged. -/
def refusal? {γ : Type} (caps : Capabilities γ) (s : Session γ) (v : Json) : Option RequestError :=
  match methodOf? v with
  | some method =>
    match ((dispatch caps method (paramsOf v) (v.field? "id").isSome).after
        (s.begun method (paramsOf v) (v.field? "id").isSome)).1 with
    | .error (.refused e) => some e
    | _ => none
  | none => none

/-- A message that is refused leaves the documents as they were. -/
theorem store_of_refusal? {s s' : Session Workspace} {v : Json} {e : RequestError}
    (h : refusal? (.ofCompiler env id) s v = some e)
    (hstep : step (.ofCompiler env id) (.arrival (.message v)) s = .ok () s') :
    s'.host.store = s.host.store := by
  unfold refusal? at h
  cases hmethod : methodOf? v with
  | none => simp [hmethod] at h
  | some method =>
    rw [show step (.ofCompiler env id) (.arrival (.message v)) = _ from
      receive_eq_process (.ofCompiler env id) hmethod] at hstep
    obtain ⟨x, t, hdispatch, rfl, -⟩ := process_eq_ok hstep
    simp only [hmethod, hdispatch] at h
    split at h
    · show t.host.store = _
      exact store_of_dispatch_refused (s := s.begun _ _ _) hdispatch
    · cases h

/-- A response with a failure answers a refusal, or it reports a fault of the server. -/
theorem refused_of_mem_response {request : Option Json} {method : String} {x : Except Fault Json}
    {i : Json} {e : RequestError} (h : .failure i e ∈ response request method x) :
    x = .error (.refused e) ∨ e.code = ErrorKind.internalError.code := by
  cases x with
  | ok value => cases request <;> simp [response] at h
  | error f =>
    cases request with
    | none => cases f <;> simp [response] at h
    | some _ =>
      cases f with
      | refused e' =>
        simp only [response, List.mem_singleton, Outbound.failure.injEq] at h
        exact .inl (by rw [h.2])
      | _ =>
        simp only [response, List.mem_singleton, Outbound.failure.injEq] at h
        exact .inr (by rw [h.2]; rfl)

/-- A message whose answer is that its parameters are invalid leaves the documents as they were. -/
theorem store_of_failure {s s' : Session Workspace} (hs : s.failing = 0) (houtbox : s.outbox = [])
    (hidle : s.IsIdle) {v : Json}
    (hstep : step (.ofCompiler env id) (.arrival (.message v)) s = .ok () s')
    {i : Json} {e : RequestError} (hmem : .failure i e ∈ s'.outbox)
    (hcode : e.code = ErrorKind.invalidParams.code) : s'.host.store = s.host.store := by
  cases hmethod : methodOf? v with
  | none =>
    exact step_unhandled (e := .arrival (.message v))
      (isLasting_host fun ws => ws.store = s.host.store).toIsAmbient (fun _ _ h => h) hmethod hstep rfl
  | some method =>
    rw [show step (.ofCompiler env id) (.arrival (.message v)) = _ from
      receive_eq_process (.ofCompiler env id) hmethod] at hstep
    obtain ⟨x, t, hdispatch, rfl, -⟩ := process_eq_ok hstep
    obtain ⟨⟨-, -, hdeferred, said, hsaid, hremarks⟩, -⟩ := says_dispatch (s := s.begun method
      (paramsOf v) (v.field? "id").isSome) (spareChannel_ofCompiler env id) hs rfl method (paramsOf v)
      (v.field? "id").isSome
    rw [hdispatch] at hdeferred hsaid
    replace hmem : .failure i e ∈ t.outbox ++ response (v.field? "id") method x ++ t.deferred := hmem
    rw [hsaid, hdeferred] at hmem
    simp only [begun, houtbox, hidle.deferred, List.nil_append, List.mem_append] at hmem
    -- Remarks and publications are no responses, so the failure is the response.
    have hresponse : .failure i e ∈ response (v.field? "id") method x := by
      rcases hmem with ((hmem | hmem) | hmem) | hmem
      · have hnone := Outbound.isResponse_of_isRemark (isRemark_receipt s method _ _ _ hmem)
        simp [Outbound.isResponse] at hnone
      · have hnone := Outbound.isResponse_of_isRemark (hremarks _ hmem)
        simp [Outbound.isResponse] at hnone
      · exact hmem
      · obtain ⟨effect, -, heffect⟩ := List.mem_filterMap.1 hmem
        cases effect <;> cases heffect
    rcases refused_of_mem_response hresponse with rfl | hinternal
    · show t.host.store = _
      exact store_of_dispatch_refused (s := s.begun _ _ _) hdispatch
    · rw [hcode] at hinternal
      exact absurd hinternal (by decide)

end Session

end LanguageServer
