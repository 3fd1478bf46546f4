import LanguageServer.Proofs.Session.Handling

/-!
# Capabilities that keep more

Capabilities may keep more in their state than others and do the same otherwise.  A map
forgets what is kept in addition; and what a session does with the one capabilities is what
it does with the others, under this map.

## Main definitions

* `Action.Refines` — an action does the same as another one, on a richer state.
* `Capabilities.Refine` — all actions of the capabilities do so.
* `Session.mapHost` — a session with the state of its capabilities mapped.

## Main statements

* `Session.runAll_mapHost` — a session takes the same course with either capabilities.
-/

namespace LanguageServer

variable {γ δ α β : Type}

/-- A run with its states mapped. -/
def Run.mapState (f : δ → γ) (r : Run δ α) : Run γ α :=
  ⟨r.said.map fun x => (x.1, f x.2), r.result, f r.state⟩

/-- The action does the same as another one, on a richer state. -/
def Action.Refines (f : δ → γ) (a : Action δ α) (b : Action γ α) : Prop :=
  ∀ s, b.run (f s) = (a.run s).mapState f

/-- The capabilities do the same as others, with a richer state. -/
structure Capabilities.Refine (f : δ → γ) (caps : Capabilities δ) (caps' : Capabilities γ) :
    Prop where
  initialise : ∀ root folders options,
    (caps.initialise root folders options).Refines f (caps'.initialise root folders options)
  initialised : caps.initialised.Refines f caps'.initialised
  changeConfiguration : ∀ settings,
    (caps.changeConfiguration settings).Refines f (caps'.changeConfiguration settings)
  documentOpened : ∀ d, (caps.documentOpened d).Refines f (caps'.documentOpened d)
  documentChanged : ∀ uri version changes,
    (caps.documentChanged uri version changes).Refines f (caps'.documentChanged uri version changes)
  documentClosed : ∀ uri, (caps.documentClosed uri).Refines f (caps'.documentClosed uri)
  definition : ∀ uri p, (caps.definition uri p).Refines f (caps'.definition uri p)
  references : ∀ uri p, (caps.references uri p).Refines f (caps'.references uri p)
  highlights : ∀ uri p, (caps.highlights uri p).Refines f (caps'.highlights uri p)

/-- The session with the state of its capabilities mapped. -/
def Session.mapHost (f : δ → γ) (s : Session δ) : Session γ := { s with host := f s.host }

/-- The course with the states of the capabilities mapped. -/
def Course.mapHost (f : δ → γ) (c : Course δ) : Course γ :=
  ⟨c.steps.map (·.mapHost f), c.last.mapHost f, c.fault, c.unread⟩

namespace Serving

open Session

variable {f : δ → γ}

/-- The operation ends like another one, in the session that the map gives. -/
def Refines (f : δ → γ) (x : Serving δ α) (y : Serving γ α) : Prop :=
  ∀ s, y.after (s.mapHost f) = ((x.after s).1, (x.after s).2.mapHost f)

namespace Refines

theorem pure (a : α) : Refines f (Pure.pure a : Serving δ α) (Pure.pure a) := fun _ => rfl

theorem throw (e : Fault) :
    Refines f (MonadExcept.throw e : Serving δ α) (MonadExcept.throw e) := fun _ => rfl

theorem update {g : Session δ → Session δ} {g' : Session γ → Session γ}
    (h : ∀ s, g' (s.mapHost f) = (g s).mapHost f) :
    Refines f (Serving.update g) (Serving.update g') := fun s => by
  rw [after_update, after_update, h]

theorem bind {x : Serving δ α} {y : Serving γ α} {g : α → Serving δ β} {g' : α → Serving γ β}
    (hx : Refines f x y) (hg : ∀ a, Refines f (g a) (g' a)) : Refines f (x >>= g) (y >>= g') := by
  intro s
  rw [after_bind, after_bind, hx s]
  cases h : x.after s with
  | mk result t =>
    cases result with
    | ok a => exact hg a t
    | error e => rfl

/-- What follows a look at the session. -/
theorem get_bind {g : Session δ → Serving δ α} {g' : Session γ → Serving γ α}
    (h : ∀ s, Refines f (g s) (g' (s.mapHost f))) : Refines f (get >>= g) (get >>= g') := by
  intro s
  rw [after_bind, after_bind, after_get, after_get]
  exact h s s

theorem outcome {x : Serving δ α} {y : Serving γ α} (h : Refines f x y) :
    Refines f (Serving.outcome x) (Serving.outcome y) := fun s => by
  rw [after_outcome, after_outcome, h s]

theorem eventually {x : Serving δ α} {y : Serving γ α} {g : Session δ → Session δ}
    {g' : Session γ → Session γ} (h : Refines f x y)
    (hg : ∀ s, g' (s.mapHost f) = (g s).mapHost f) :
    Refines f (Serving.eventually x g) (Serving.eventually y g') := fun s => by
  rw [after_eventually, after_eventually, h s, hg]

end Refines

/-! ## Sending -/

theorem refines_send (m : Outbound) : Refines f (send m) (send m) := by
  intro s
  cases h : s.failing with
  | zero => simp [after, send, mapHost, h]
  | succ n => simp [after, send, mapHost, h]

theorem refines_sendAll (l : List Outbound) : Refines f (sendAll l) (sendAll l) := by
  induction l with
  | nil => exact .pure ()
  | cons m rest ih => exact .bind (refines_send m) fun _ => ih

theorem refines_tell (message : String) (verbose : Option String) :
    Refines f (tell message verbose) (tell message verbose) := by
  refine .get_bind fun s => ?_
  have htrace : (s.mapHost f).trace = s.trace := rfl
  simp only [htrace]
  cases s.trace with
  | off => exact .pure ()
  | messages => exact refines_send _
  | verbose => exact refines_send _

theorem refines_push (uri : String) (version : Option Int) (diagnostics : List Diagnostic) :
    Refines f (push uri version diagnostics) (push uri version diagnostics) := by
  unfold push
  split
  · exact .throw _
  · refine .get_bind fun s => ?_
    show Refines f _ (if s.dispatching = true then _ else _)
    split
    · exact .update fun _ => rfl
    · exact refines_send _

theorem refines_hear (e : Effect) : Refines f (hear e) (hear e) := by
  cases e with
  | log level message => exact refines_send _
  | publish uri version diagnostics => exact refines_push uri version diagnostics
  | trace message verbose => exact refines_tell message verbose
  | engine call => exact .update fun _ => rfl

theorem refines_flush : Refines f flush flush :=
  .get_bind fun s => .bind (.update fun _ => rfl) fun _ => refines_sendAll s.deferred

/-! ## Performing actions -/

/-- What is said is delivered up to the same entry. -/
theorem deliverAll_mapHost (l : List (Effect × δ)) (s : Session δ) :
    deliverAll hear (s.mapHost f) (l.map fun x => (x.1, f x.2)) =
      ((deliverAll hear s l).1.mapHost f,
        (deliverAll hear s l).2.map fun x => (x.1, f x.2)) := by
  induction l generalizing s with
  | nil => rfl
  | cons entry rest ih =>
    have hhear := refines_hear (f := f) entry.1 s
    rw [List.map_cons, deliverAll, deliverAll]
    unfold after at hhear
    cases h : hear entry.1 s with
    | ok u t =>
      cases h' : hear entry.1 (s.mapHost f) with
      | ok u' t' =>
        simp only [h, h', Prod.mk.injEq, true_and] at hhear
        rw [hhear]
        exact ih t
      | error e t' => simp [h, h'] at hhear
    | error e t =>
      cases h' : hear entry.1 (s.mapHost f) with
      | ok u' t' => simp [h, h'] at hhear
      | error e' t' =>
        simp only [h, h', Prod.mk.injEq, Except.error.injEq] at hhear
        rw [hhear.1, hhear.2]
        rfl

theorem refines_perform {a : Action δ α} {b : Action γ α} (h : a.Refines f b) :
    Refines f (perform a) (perform b) := by
  intro s
  rw [after_perform, after_perform, show (s.mapHost f).host = f s.host from rfl, h s.host]
  unfold Run.deliver Run.mapState
  simp only [deliverAll_mapHost]
  cases deliverAll hear s (a.run s.host).said with
  | mk t failure => cases failure <;> rfl

end Serving

/-! ## Messages -/

namespace Session

open Serving

variable {f : δ → γ} {caps : Capabilities δ} {caps' : Capabilities γ}

theorem refines_rootOf (params : Json) : Refines f (rootOf params) (rootOf params) := by
  unfold rootOf
  repeat' split
  all_goals first | exact .pure _ | exact .throw _

theorem refines_foldersOf (params : Json) : Refines f (foldersOf params) (foldersOf params) := by
  unfold foldersOf
  simp only
  repeat' split
  all_goals first | exact .pure _ | exact .throw _

theorem refines_traceOf (params : Json) : Refines f (traceOf params) (traceOf params) := by
  unfold traceOf
  split
  · exact .get_bind fun _ => .pure _
  · split
    · exact .pure _
    · exact .throw _

theorem refines_handleInitialise (hcaps : caps.Refine f caps') (params : Json) :
    Refines f (handleInitialise caps params) (handleInitialise caps' params) := by
  unfold handleInitialise
  split
  · exact .bind (refines_rootOf _) fun root => .bind (refines_foldersOf _) fun folders =>
      .bind (refines_traceOf _) fun trace =>
        .bind (refines_perform (hcaps.initialise root folders _)) fun id =>
          .bind (.update fun _ => rfl) fun _ => .pure _
  · exact .throw _

theorem refines_handleSetTrace (params : Json) :
    Refines f (handleSetTrace params) (handleSetTrace params) := by
  unfold handleSetTrace
  split
  · split
    · exact .bind (.update fun _ => rfl) fun _ => .pure _
    · exact .throw _
  · exact .throw _

theorem refines_structured (expected : String) (a : Option α) :
    Refines f (structured expected a) (structured expected a) := by
  cases a with
  | some a => exact .pure a
  | none => exact .throw _

theorem refines_handle (hcaps : caps.Refine f caps') (m : Method) (params : Json) :
    Refines f (handle caps m params) (handle caps' m params) := by
  cases m with
  | initialise => exact refines_handleInitialise hcaps params
  | initialised => exact .bind (refines_perform hcaps.initialised) fun _ => .pure _
  | shutdown => exact .bind (.update fun _ => rfl) fun _ => .pure _
  | exit => exact .bind (.update fun _ => rfl) fun _ => .pure _
  | setTrace => exact refines_handleSetTrace params
  | cancelRequest => exact .bind (refines_tell _ _) fun _ => .pure _
  | didChangeConfiguration =>
    exact .bind (refines_perform (hcaps.changeConfiguration _)) fun _ => .pure _
  | didOpen =>
    exact .bind (refines_structured _ _) fun d =>
      .bind (refines_perform (hcaps.documentOpened d)) fun _ => .pure _
  | didChange =>
    have hread :
        Refines f (ofExcept (Params.changed params)) (ofExcept (Params.changed params)) := by
      cases Params.changed params with
      | ok change => exact .pure change
      | error e => exact .throw _
    exact .bind hread fun change =>
      .bind (refines_perform (hcaps.documentChanged change.1 change.2.1 change.2.2))
        fun _ => .pure _
  | didClose =>
    exact .bind (refines_structured _ _) fun uri =>
      .bind (refines_perform (hcaps.documentClosed uri)) fun _ => .pure _
  | definition =>
    exact .bind (refines_structured _ _) fun q =>
      .bind (refines_perform (hcaps.definition q.1 q.2)) fun _ => .pure _
  | documentHighlight =>
    exact .bind (refines_structured _ _) fun q =>
      .bind (refines_perform (hcaps.highlights q.1 q.2)) fun _ => .pure _
  | references =>
    exact .bind (refines_structured _ _) fun q =>
      .bind (refines_perform (hcaps.references q.1 q.2)) fun _ => .pure _

theorem refines_accepts (method : String) (isRequest : Bool) :
    Refines f (accepts method isRequest) (accepts method isRequest) := by
  refine .get_bind fun s => ?_
  have hlifecycle : (s.mapHost f).lifecycle = s.lifecycle := rfl
  simp only [hlifecycle]
  split
  · exact .pure _
  · cases s.lifecycle <;> simp only <;> repeat' split
    all_goals first | exact .pure _ | exact .throw _

theorem refines_dispatch (hcaps : caps.Refine f caps') (method : String) (params : Json)
    (isRequest : Bool) :
    Refines f (dispatch caps method params isRequest) (dispatch caps' method params isRequest) := by
  refine .bind (refines_accepts method isRequest) fun accepted => ?_
  split
  · split
    · exact refines_handle hcaps _ params
    · split
      · exact .throw _
      · exact .pure _
  · exact .pure _

theorem refines_respond (id : Option Json) (method : String) (x : Except Fault Json) :
    Refines f (respond id method x) (respond id method x) := by
  cases x with
  | ok value =>
    cases id with
    | some id => exact refines_send _
    | none => exact .pure ()
  | error e =>
    cases e with
    | channel reason => cases id <;> exact .throw _
    | _ => cases id <;> exact refines_send _

theorem refines_process (hcaps : caps.Refine f caps') (id : Option Json) (method : String)
    (params : Json) : Refines f (process caps id method params) (process caps' id method params) :=
  .bind (refines_tell _ _) fun _ => .bind (.update fun _ => rfl) fun _ =>
    .bind (.eventually (.bind (.outcome (refines_dispatch hcaps method params id.isSome)) fun x =>
      refines_respond id method x) fun _ => rfl) fun _ => refines_flush

theorem refines_receive (hcaps : caps.Refine f caps') (v : Json) :
    Refines f (receive caps v) (receive caps' v) := by
  cases hmethod : methodOf? v with
  | some method =>
    rw [receive_eq_process caps hmethod, receive_eq_process caps' hmethod]
    exact refines_process hcaps _ _ _
  | none =>
    cases v with
    | obj members =>
      unfold methodOf? at hmethod
      unfold receive
      simp only at hmethod ⊢
      cases hname : (Json.obj members).fieldOrNull "method" with
      | str method =>
        simp only [hname] at hmethod ⊢
        split at hmethod
        · next hid =>
          rw [if_pos hid, if_pos hid]
          exact refines_send _
        · cases hmethod
      | null =>
        simp only
        split
        · exact .pure ()
        · exact refines_send _
      | _ => exact refines_send _
    | _ => exact refines_send _

theorem refines_step (hcaps : caps.Refine f caps') (e : Event) :
    Refines f (step caps e) (step caps' e) := by
  cases e with
  | arrival r =>
    cases r with
    | message v => exact refines_receive hcaps v
    | malformed reason => exact refines_send _
    | failed reason => exact .throw _
    | oversized => exact .throw _
    | closed => exact .pure ()
  | remark e => exact refines_hear e
  | complaint id error => exact refines_send _
  | failSends n => exact .update fun _ => rfl

/-- A session takes the same course with either capabilities. -/
theorem runAll_mapHost (hcaps : caps.Refine f caps') (s : Session δ) (events : List Event) :
    runAll caps' (s.mapHost f) events = (runAll caps s events).mapHost f := by
  induction events generalizing s with
  | nil => rfl
  | cons e rest ih =>
    have hstep := refines_step hcaps e s.cleared
    rw [runAll, runAll]
    by_cases hexited : s.lifecycle = .exited
    · rw [if_pos hexited, if_pos (show (s.mapHost f).lifecycle = .exited from hexited)]
      rfl
    · rw [if_neg hexited, if_neg (show (s.mapHost f).lifecycle ≠ .exited from hexited)]
      by_cases hclosing : isClosing e = true
      · rw [if_pos hclosing, if_pos hclosing]
        rfl
      · rw [if_neg hclosing, if_neg hclosing,
          show (s.mapHost f).cleared = s.cleared.mapHost f from rfl]
        unfold after at hstep
        cases h : step caps e s.cleared with
        | ok u t =>
          cases h' : step caps' e (s.cleared.mapHost f) with
          | ok u' t' =>
            simp only [h, h', Prod.mk.injEq, true_and] at hstep
            rw [hstep]
            simp only [ih]
            rfl
          | error g t' => simp [h, h'] at hstep
        | error g t =>
          cases h' : step caps' e (s.cleared.mapHost f) with
          | ok u' t' => simp [h, h'] at hstep
          | error g' t' =>
            simp only [h, h', Prod.mk.injEq, Except.error.injEq] at hstep
            rw [hstep.1, hstep.2]
            cases g <;> rfl

end Session

end LanguageServer
