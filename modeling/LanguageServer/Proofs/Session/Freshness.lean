import LanguageServer.Proofs.Session.Handling
import LanguageServer.Proofs.Workspace.Freshness
import LanguageServer.Toy.Engine

/-!
# Fresh answers

In a session with the toy engine a query is answered as if its document had just been
opened for the first time together with all others: from a compilation of the texts that
are tracked at that moment, under the configuration in force, with places translated in
exactly these texts.

There is one gap.  What is known from the latest compilation is kept as long as the
documents do not change; so settings that are taken up in part, or under which compiling
fails, do not show in the answers until some document changes.

## Main definitions

* `Toy.environment` — the toy engine over a file system.
* `Query`, `Query.action` — the queries, with their answers as the client reads them.
* `Session.Attained` — the sessions that can come about.

## Main statements

* `Session.Attained.isSound` — what the workspace of such a session knows is current.
* `Session.Attained.answer_eq` — queries are answered afresh.
-/

namespace LanguageServer

open Workspace

/-- The toy engine over a file system. -/
def Toy.environment (files : FileSystem) (budget : Nat) (reporter : String) : Environment :=
  { files, engines := fun _ => Toy.engine budget, reporter }

theorem Toy.isUniform_environment (files : FileSystem) (budget : Nat) (reporter : String) :
    (Toy.environment files budget reporter).IsUniform := fun _ _ => rfl

/-- What a client can ask about a place in a document. -/
inductive Query where
  | definition
  | references
  | highlights

namespace Query

/-- The method of a query. -/
def method : Query → Method
  | .definition => .definition
  | .references => .references
  | .highlights => .documentHighlight

/-- The answer to a query as the client reads it. -/
def action (env : Environment) (uri : String) (p : Position) : Query → Action Workspace Json
  | .definition => do
    return Session.listJson Location.toJson (← query env Navigation.definition uri p)
  | .references => do
    return Session.listJson Location.toJson (← query env Navigation.references uri p)
  | .highlights => do
    return Session.listJson Highlight.toJson (← query env Navigation.highlights uri p)

end Query

namespace Session

open Serving

/-- Whether an event is a message with a method whose handling ends because a path or the
engine is at fault. -/
def isSpoiledBy {γ : Type} (caps : Capabilities γ) (s : Session γ) (m : Method) : Event → Bool
  | .arrival (.message v) =>
    match methodOf? v with
    | some method =>
      method == m.name &&
        match ((dispatch caps method (paramsOf v) (v.field? "id").isSome).after
            (s.begun method (paramsOf v) (v.field? "id").isSome)).1 with
        | .ok _ => false
        | .error f => f.stopsCompiling
    | none => false
  | _ => false

/-- The sessions that can come about, with the generation of the documents under which settings
most recently ended in a fault of a path or of the engine. -/
inductive Attained (env : Environment) (id : ServerId) : Option Nat → Session Workspace → Prop
  | start : Attained env id none { host := .empty }
  | step {spoilt : Option Nat} {s s' : Session Workspace} {e : Event} (h : Attained env id spoilt s)
      (hstep : Session.step (.ofCompiler env id) e s.cleared = .ok () s') :
      Attained env id
        (if isSpoiledBy (.ofCompiler env id) s.cleared .didChangeConfiguration e then
          some s'.host.store.generation else spoilt) s'

variable {env : Environment} {id : ServerId}

/-- What a message about documents asks of the compiler keeps a workspace current. -/
theorem deed_staysCurrent (henv : env.IsUniform) {spoilt : Option Nat} {m : Method} {params : Json}
    {a : Action Workspace Json} (ha : deed? (.ofCompiler env id) m params = some a)
    (hm : m ≠ .didChangeConfiguration) : StaysCurrent env spoilt a := by
  have hmapped {α : Type} {f : α → Json} {a : Action Workspace α} (h : StaysCurrent env spoilt a) :
      StaysCurrent env spoilt (do return f (← a)) := .bind h fun _ => .pure _
  cases isDeed_of_deed? ha with
  | initialised => exact hmapped (.pure ())
  | settings => exact absurd rfl hm
  | opened _ => exact hmapped (openDocument_staysCurrent henv _)
  | changed _ => exact hmapped (changeDocument_staysCurrent henv _ _ _)
  | closed _ => exact hmapped (closeDocument_staysCurrent henv _)
  | definition _ => exact hmapped (query_staysCurrent henv reads_definition _ _)
  | highlights _ => exact hmapped (query_staysCurrent henv reads_highlights _ _)
  | references _ => exact hmapped (query_staysCurrent henv reads_references _ _)

/-- The workspace is current, and nothing was compiled before the initialisation. -/
structure IsSound (env : Environment) (spoilt : Option Nat) (s : Session Workspace) : Prop where
  current : s.host.IsCurrent env spoilt
  unread : s.lifecycle = .uninitialized → s.host.snapshot = none

theorem isLasting_isSound (spoilt : Option Nat) : IsLasting (IsSound env spoilt) where
  send _ _ _ h := ⟨h.current, h.unread⟩
  hold _ _ _ _ h := ⟨h.current, h.unread⟩
  call _ _ h := ⟨h.current, h.unread⟩
  failing _ _ h := ⟨h.current, h.unread⟩
  trace _ _ h := ⟨h.current, h.unread⟩
  leave _ _ _ hne h := ⟨h.current, fun heq => absurd heq hne⟩

/-- Nothing was compiled in the workspace, which is current. -/
def IsUnread (env : Environment) (spoilt : Option Nat) (s : Session Workspace) : Prop :=
  s.host.snapshot = none ∧ s.host.IsCurrent env spoilt

/-- Preparing a workspace for which nothing was compiled leaves it so. -/
theorem initialise_preserves (spoilt : Option Nat) (root : Json) (folders : List WorkspaceFolder)
    (options : Json) :
    Preserves (IsUnread env spoilt)
      (perform ((Capabilities.ofCompiler env id).initialise root folders options)) := by
  have hunread {ws ws' : Workspace} (h : ws.snapshot = none ∧ ws.IsCurrent env spoilt)
      (hsnapshot : ws'.snapshot = ws.snapshot) (hstore : ws'.store = ws.store) :
      ws'.snapshot = none ∧ ws'.IsCurrent env spoilt := by
    have hnone := hsnapshot.trans h.1
    exact ⟨hnone, isCurrent_of_lt (fun s hs => by simp [hnone] at hs) (hstore ▸ h.2.past)⟩
  have hprepare : Action.Steady (fun _ => True)
      (fun ws : Workspace => ws.snapshot = none ∧ ws.IsCurrent env spoilt)
      (prepare env id root folders options) := by
    refine prepare_steady ?_ ?_ id root folders options
    · exact fun ws base h => hunread h rfl rfl
    · exact fun ws configuration h => hunread h rfl rfl
  exact perform_preserves_host hprepare

/-- An initialisation keeps a session sound. -/
theorem isSound_initialise {spoilt : Option Nat} {s s₁ : Session Workspace}
    (h : IsSound env spoilt s) {method : String} (hmethod : method = Method.initialise.name)
    {params : Json} {isRequest : Bool} {x : Except Fault Json}
    (hdispatch : (dispatch (.ofCompiler env id) method params isRequest).after s = (x, s₁)) :
    IsSound env spoilt s₁ := by
  subst hmethod
  rcases dispatch_cases (.ofCompiler env id) Method.initialise.name params isRequest s with
    ⟨m, hm, hwhen, hhandle⟩ | ⟨-, hdrop⟩ | ⟨e, hrefuse⟩
  · obtain rfl : m = .initialise := by
      have hinit : Method.ofName? Method.initialise.name = some .initialise := by decide
      exact Option.some.inj (hm.symm.trans hinit)
    have hl : s.lifecycle = .uninitialized := by
      rcases hwhen with hexit | hwhen
      · exact absurd hexit (by decide)
      · exact hwhen.2 rfl
    have hunread : IsUnread env spoilt s := ⟨h.unread hl, h.current⟩
    have hlasting : IsLasting (IsUnread env spoilt) :=
      isLasting_host fun ws : Workspace => ws.snapshot = none ∧ ws.IsCurrent env spoilt
    have hkept := handleInitialise_preserves hlasting (.ofCompiler env id)
      (initialise_preserves spoilt) params s hunread
    rw [show (handleInitialise (.ofCompiler env id) params).after s = (x, s₁) from
      hhandle.symm.trans hdispatch] at hkept
    exact ⟨hkept.2, fun _ => hkept.1⟩
  · obtain ⟨-, rfl⟩ := Prod.mk.inj (hdrop.symm.trans hdispatch)
    exact h
  · obtain ⟨-, rfl⟩ := Prod.mk.inj (hrefuse.symm.trans hdispatch)
    exact h

/-- Settings keep a session sound, unless they stop early. -/
theorem isSound_perform_changeSettings (henv : env.IsUniform) {spoilt : Option Nat}
    {s s₁ : Session Workspace} (h : IsSound env spoilt s)
    (hinitialised : s.lifecycle ≠ .uninitialized) (settings : Json) {x : Except Fault Json}
    (hperform : (perform (do changeSettings env settings; return Json.null)).after s = (x, s₁))
    (hchannel : ∀ reason, x ≠ .error (.channel reason)) :
    IsSound env spoilt s₁ ∨ (∃ f, x = .error f ∧ f.stopsCompiling = true) ∧
      IsSound env (some s₁.host.store.generation) s₁ := by
  have hlifecycle := lifecycle_perform (do changeSettings env settings; return Json.null) s
  have hcases := perform_cases (do changeSettings env settings; return Json.null) s
  obtain ⟨hpushes, hend⟩ := run_changeSettings henv h.current settings
  rw [hperform] at hcases hlifecycle
  rw [Action.run_bind_pure _ fun _ => Json.null] at hcases
  have hunread : s₁.lifecycle = .uninitialized → s₁.host.snapshot = none := fun hl =>
    absurd (hlifecycle ▸ hl) hinitialised
  rcases hcases with ⟨hresult, hhost⟩ | ⟨reason, hreason⟩ | ⟨entry, hmem, hpush, hhost, -⟩
  · simp only at hresult hhost
    rcases hend with hcurrent | ⟨hcurrent, f, hf, hstops⟩
    · exact .inl ⟨hhost ▸ hcurrent, hunread⟩
    · refine .inr ⟨⟨f, by rw [hresult, hf]; rfl, hstops⟩, ?_, hunread⟩
      rw [hhost]
      exact hcurrent
  · exact absurd hreason (hchannel reason)
  · exact .inl ⟨hhost ▸ hpushes entry hmem hpush, hunread⟩

/-- Dispatching a message keeps a session sound, unless it is a change of settings that stops
early. -/
theorem isSound_dispatch (henv : env.IsUniform) {spoilt : Option Nat} {s s₁ : Session Workspace}
    (h : IsSound env spoilt s) {method : String} {params : Json} {isRequest : Bool}
    {x : Except Fault Json}
    (hdispatch : (dispatch (.ofCompiler env id) method params isRequest).after s = (x, s₁))
    (hchannel : ∀ reason, x ≠ .error (.channel reason)) :
    IsSound env spoilt s₁ ∨ method = Method.didChangeConfiguration.name ∧
      (∃ f, x = .error f ∧ f.stopsCompiling = true) ∧
      IsSound env (some s₁.host.store.generation) s₁ := by
  by_cases hpassed : ∃ m, Method.ofName? method = some m ∧ m.isDelegated = true
  · obtain ⟨m, hname, hdelegated⟩ := hpassed
    rcases dispatch_delegated (.ofCompiler env id) hname hdelegated params isRequest s with
      ⟨a, ha, hinitialised, hperform⟩ | ⟨-, hdrop⟩ | ⟨e, hrefuse⟩
    · rw [hperform] at hdispatch
      by_cases hm : m = .didChangeConfiguration
      · subst hm
        obtain rfl := Option.some.inj ha
        rcases isSound_perform_changeSettings henv h hinitialised _ hdispatch hchannel with
          hsound | hspoilt
        · exact .inl hsound
        · exact .inr ⟨name_of_ofName? hname, hspoilt⟩
      · have hlifecycle := lifecycle_perform a s
        obtain ⟨hpushes, hend⟩ := deed_staysCurrent henv ha hm s.host h.current
        have hcases := perform_cases a s
        rw [hdispatch] at hcases hlifecycle
        refine .inl ⟨?_, fun hl => absurd (hlifecycle ▸ hl) hinitialised⟩
        rcases hcases with ⟨-, hhost⟩ | ⟨reason, hreason⟩ | ⟨entry, hmem, hpush, hhost, -⟩
        · rw [hhost]
          exact hend
        · exact absurd hreason (hchannel reason)
        · rw [hhost]
          exact hpushes entry hmem hpush
    · rw [hdrop] at hdispatch
      obtain ⟨-, rfl⟩ := Prod.mk.inj hdispatch
      exact .inl h
    · rw [hrefuse] at hdispatch
      obtain ⟨-, rfl⟩ := Prod.mk.inj hdispatch
      exact .inl h
  · left
    have hnone : ∀ m, Method.ofName? method = some m → m.isDelegated = false := fun m hm => by
      simpa using fun hdelegated => hpassed ⟨m, hm, hdelegated⟩
    by_cases hinit : method = Method.initialise.name
    · exact isSound_initialise h hinit hdispatch
    · have hlasting : IsLasting (IsSound env spoilt) := isLasting_isSound spoilt
      have hkept := dispatch_preserves hlasting (.ofCompiler env id) hnone hinit params isRequest s h
      rw [hdispatch] at hkept
      exact hkept

/-- Every session that can come about is sound. -/
theorem Attained.isSound (henv : env.IsUniform) {spoilt : Option Nat} {s : Session Workspace}
    (h : Attained env id spoilt s) : IsSound env spoilt s := by
  induction h with
  | start => exact ⟨isCurrent_empty, fun _ => rfl⟩
  | @step spoilt s s' e _ hstep ih =>
    have hcleared : IsSound env spoilt s.cleared := ⟨ih.current, ih.unread⟩
    cases hmethod : eventMethod? e with
    | none =>
      have hquiet : isSpoiledBy (.ofCompiler env id) s.cleared .didChangeConfiguration e = false := by
        unfold isSpoiledBy
        split
        · next v => simp only [show methodOf? v = none from hmethod]
        · rfl
      simp only [hquiet]
      exact step_unhandled (isLasting_isSound spoilt).toIsAmbient
        (fun _ _ h => ⟨h.current, h.unread⟩) hmethod hstep hcleared
    | some method =>
      obtain ⟨v, rfl, hv, hprocess⟩ := step_handled (.ofCompiler env id) hmethod
      rw [hprocess] at hstep
      obtain ⟨x, s₁, hdispatch, rfl, hchannel⟩ := process_eq_ok hstep
      have hbegun : IsSound env spoilt
          (s.cleared.begun method (paramsOf v) (v.field? "id").isSome) :=
        ⟨hcleared.current, hcleared.unread⟩
      have hfinished {g : Option Nat} (h : IsSound env g s₁) :
          IsSound env g (s₁.finished (response (v.field? "id") method x)) := ⟨h.current, h.unread⟩
      simp only [isSpoiledBy, hv, hdispatch]
      have hkept := isSound_dispatch henv hbegun hdispatch hchannel
      cases x with
      | ok value =>
        rcases hkept with hsound | ⟨-, ⟨f, hf, -⟩, -⟩
        · simpa using hfinished hsound
        · cases hf
      | error f =>
        by_cases hstopped : (method == Method.didChangeConfiguration.name) = true ∧
            f.stopsCompiling = true
        · simp only [hstopped.1, hstopped.2, Bool.and_self, if_true]
          rcases hkept with hsound | ⟨-, -, hsound⟩
          · exact hfinished ⟨hsound.current.spoil rfl rfl, hsound.unread⟩
          · exact hfinished hsound
        · rcases hkept with hsound | ⟨rfl, ⟨f', hf, hstops⟩, -⟩
          · rw [if_neg (by simpa using hstopped)]
            exact hfinished hsound
          · obtain rfl := Except.error.inj hf
            exact absurd ⟨beq_self_eq_true _, hstops⟩ hstopped

/-- No response is held back between messages. -/
theorem Attained.holdsNoResponse {spoilt : Option Nat} {s : Session Workspace}
    (h : Attained env id spoilt s) : HoldsNoResponse s := by
  induction h with
  | start => exact fun m hm => absurd hm List.not_mem_nil
  | @step spoilt s s' e _ hstep ih =>
    cases hmethod : eventMethod? e with
    | none =>
      exact step_unhandled isLasting_holdsNoResponse.toIsAmbient (fun _ _ h => h) hmethod hstep ih
    | some method =>
      obtain ⟨v, -, -, hprocess⟩ := step_handled (.ofCompiler env id) hmethod
      rw [hprocess] at hstep
      obtain ⟨x, s₁, -, rfl, -⟩ := process_eq_ok hstep
      exact fun m hm => absurd hm List.not_mem_nil

/-! ## Answers -/

/-- The action that a query asks for. -/
theorem deed?_query (q : Query) (params : Json) :
    deed? (.ofCompiler env id) q.method params =
      (Params.documentPosition? params).map fun r => q.action env r.1 r.2 := by
  cases q <;> rfl

theorem isDelegated_query (q : Query) : q.method.isDelegated = true := by cases q <;> rfl

/-- A query in a current workspace is answered as in one that knows only its documents, its
configuration and its root. -/
theorem result_action (henv : env.IsUniform) {spoilt : Option Nat} {ws : Workspace}
    (h : ws.IsCurrent env spoilt) (hspoilt : spoilt ≠ some ws.store.generation) (q : Query)
    (uri : String) (p : Position) :
    ((q.action env uri p).run ws).result = ((q.action env uri p).run ws.afresh).result := by
  have hafresh : ws.afresh.IsCurrent env none :=
    isCurrent_of_lt (fun s hs => by cases hs) (fun n hn => by cases hn)
  have hsame {α : Type} {answer : Program → String → Position → Action Workspace α}
      {f : View → Program → String → Position → Except Fault α}
      (hreads : ∀ program source p, Reads (answer program source p) fun v => f v program source p) :
      ((query env answer uri p).run ws).result = ((query env answer uri p).run ws.afresh).result := by
    rw [result_query hreads h hspoilt, result_query hreads hafresh (by simp),
      reply_congr henv (sameTask_afresh ws)]
  cases q with
  | definition =>
    unfold Query.action
    rw [Action.run_bind_pure, Action.run_bind_pure, hsame reads_definition]
  | references =>
    unfold Query.action
    rw [Action.run_bind_pure, Action.run_bind_pure, hsame reads_references]
  | highlights =>
    unfold Query.action
    rw [Action.run_bind_pure, Action.run_bind_pure, hsame reads_highlights]

/-- Queries are answered afresh.  If a query is answered with a result in a session that can come
about, then the result is the answer in a workspace that knows only the documents, the configuration
and the root as they are at that moment: it comes from compiling exactly these texts, and places are
translated in exactly these texts.  The documents must have changed since settings last ended in a
fault of a path or of the engine, if they ever did. -/
theorem Attained.answer_eq {files : FileSystem} {budget : Nat} {reporter : String}
    {spoilt : Option Nat} {s s' : Session Workspace}
    (h : Attained (Toy.environment files budget reporter) id spoilt s)
    (hspoilt : spoilt ≠ some s.host.store.generation) (q : Query) {v : Json}
    (hv : methodOf? v = some q.method.name)
    (hstep : Session.step (.ofCompiler (Toy.environment files budget reporter) id)
      (.arrival (.message v)) s.cleared = .ok () s')
    {request value : Json} (hanswer : .result request value ∈ s'.outbox) :
    ∃ uri p, Params.documentPosition? (paramsOf v) = some (uri, p) ∧
      ((q.action (Toy.environment files budget reporter) uri p).run s.host.afresh).result
        = .ok value := by
  have henv := Toy.isUniform_environment files budget reporter
  generalize Toy.environment files budget reporter = env at h hstep henv
  have hname : Method.ofName? q.method.name = some q.method := by cases q <;> decide
  have hmethod : eventMethod? (.arrival (.message v)) = some q.method.name := hv
  obtain ⟨v', hv', -, hprocess⟩ := step_handled (.ofCompiler env id) hmethod
  obtain rfl : v = v' := by simpa using hv'
  rw [hprocess] at hstep
  obtain ⟨x, s₁, hdispatch, rfl, -⟩ := process_eq_ok hstep
  have hbegun := hasNotResponded_begun (s := s.cleared)
    ⟨h.holdsNoResponse, fun m hm => absurd hm List.not_mem_nil⟩ q.method.name (paramsOf v)
    (v.field? "id").isSome
  rcases dispatch_delegated (.ofCompiler env id) hname (isDelegated_query q) (paramsOf v)
    (v.field? "id").isSome (s.cleared.begun q.method.name (paramsOf v) (v.field? "id").isSome) with
    ⟨a, ha, -, hperform⟩ | ⟨hid, hdrop⟩ | ⟨e, hrefuse⟩
  · rw [hperform] at hdispatch
    have hresponded := hasNotResponded_perform a _ hbegun
    rw [hdispatch] at hresponded
    obtain ⟨-, rfl⟩ := result_of_mem_finished hresponded hanswer
    rw [deed?_query] at ha
    obtain ⟨⟨uri, p⟩, hparams, rfl⟩ := Option.map_eq_some_iff.1 ha
    refine ⟨uri, p, hparams, ?_⟩
    have hcases := perform_cases (q.action env uri p)
      (s.cleared.begun q.method.name (paramsOf v) (v.field? "id").isSome)
    rw [hdispatch] at hcases
    rcases hcases with ⟨hresult, -⟩ | ⟨reason, hreason⟩ | ⟨_, _, _, _, _, hversion⟩
    · rw [← result_action henv (h.isSound henv).current hspoilt q uri p]
      exact hresult.symm
    · cases hreason
    · cases hversion
  · rw [hdrop] at hdispatch
    obtain ⟨rfl, rfl⟩ := Prod.mk.inj hdispatch
    obtain ⟨hsome, -⟩ := result_of_mem_finished hbegun hanswer
    simp [hsome] at hid
  · rw [hrefuse] at hdispatch
    obtain ⟨rfl, rfl⟩ := Prod.mk.inj hdispatch
    obtain ⟨-, hx⟩ := result_of_mem_finished hbegun hanswer
    cases hx

/-! ## Two conversations -/

/-- A request of a client. -/
def requestOf (id : Int) (method : Method) (params : Json) : Json :=
  .obj [("id", .int id), ("method", .str method.name), ("params", params)]

/-- A notification of a client. -/
def notificationOf (method : Method) (params : Json) : Json :=
  .obj [("method", .str method.name), ("params", params)]

/-- The notification that a document was opened. -/
def opening (uri text : String) : Json :=
  notificationOf .didOpen (.obj [("textDocument", .obj
    [("uri", .str uri), ("languageId", .str "toy"), ("version", .int 1), ("text", .str text)])])

/-- The request for the definition of what stands at a place. -/
def definitionRequest (id : Int) (uri : String) (line character : Int) : Json :=
  requestOf id .definition (.obj
    [("textDocument", .obj [("uri", .str uri)]),
      ("position", .obj [("line", .int line), ("character", .int character)])])

/-- A server without files. -/
def loneEnvironment : Environment := Toy.environment (.empty []) 10 "toy"

/-- The capabilities of a server without files. -/
def loneCapabilities : Capabilities Workspace := .ofCompiler loneEnvironment ⟨"toy", none⟩

/-- The session after a message. -/
def hearing (s : Session Workspace) (v : Json) : Session Workspace :=
  ((Session.step loneCapabilities (.arrival (.message v))).after s.cleared).2

/-- Whether a message is handled without an end of the session. -/
def isHeard (s : Session Workspace) (v : Json) : Bool :=
  match ((Session.step loneCapabilities (.arrival (.message v))).after s.cleared).1 with
  | .ok () => true
  | .error _ => false

theorem step_of_isHeard {s : Session Workspace} {v : Json} (h : isHeard s v = true) :
    Session.step loneCapabilities (.arrival (.message v)) s.cleared = .ok () (hearing s v) := by
  unfold isHeard at h
  unfold hearing
  unfold Serving.after at h ⊢
  cases hstep : Session.step loneCapabilities (.arrival (.message v)) s.cleared with
  | ok u s' => rfl
  | error e s' => simp [hstep] at h

/-- An importing document, with what it imports opened under another name. -/
def importingSession : Session Workspace :=
  hearing (hearing (hearing { host := .empty } (requestOf 1 .initialise (.obj [])))
    (opening "l" "var f = 1;")) (opening "u" "import \"x\";\nf;")

/-- Settings that remap the import, and of which another entry cannot be taken up. -/
def brokenSettings : Json :=
  notificationOf .didChangeConfiguration (.obj [("settings", .obj
    [("remappings", .arr [.str "x=l"]), ("includePaths", .arr [.str "\x00"])])])

/-- Settings that remap the import. -/
def remappingSettings : Json :=
  notificationOf .didChangeConfiguration (.obj [("settings", .obj
    [("remappings", .arr [.str "x=l"])])])

/-- The first result among messages. -/
def firstResult? (l : List Outbound) : Option Json :=
  l.findSome? fun m => match m with
    | .result _ value => some value
    | _ => none

/-- The number of places in an answer. -/
def placeCount (answer : Option Json) : Nat :=
  match answer with
  | some (.arr places) => places.length
  | _ => 0

theorem mem_of_firstResult? {l : List Outbound} {value : Json} (h : firstResult? l = some value) :
    ∃ request, .result request value ∈ l := by
  obtain ⟨m, hm, hvalue⟩ := List.exists_of_findSome?_eq_some h
  cases m with
  | result request v =>
    obtain rfl := Option.some.inj hvalue
    exact ⟨request, hm⟩
  | _ => cases hvalue

theorem exists_firstResult? {l : List Outbound} (h : (firstResult? l).isSome = true) :
    ∃ request value, .result request value ∈ l ∧ firstResult? l = some value := by
  obtain ⟨value, hvalue⟩ := Option.isSome_iff_exists.1 h
  obtain ⟨request, hm⟩ := mem_of_firstResult? hvalue
  exact ⟨request, value, hm, hvalue⟩

/-- A message that does not spoil a session leads to another that can come about. -/
theorem Attained.hearing {spoilt : Option Nat} {s : Session Workspace} {v : Json}
    (h : Attained loneEnvironment ⟨"toy", none⟩ spoilt s) (hheard : isHeard s v = true)
    (hcalm : isSpoiledBy loneCapabilities s.cleared .didChangeConfiguration
      (.arrival (.message v)) = false) :
    Attained loneEnvironment ⟨"toy", none⟩ spoilt (hearing s v) := by
  have hnext := Attained.step h (step_of_isHeard hheard)
  rw [if_neg (by rw [show isSpoiledBy (.ofCompiler loneEnvironment ⟨"toy", none⟩) s.cleared
    .didChangeConfiguration (.arrival (.message v)) = false from hcalm]; decide)] at hnext
  exact hnext

theorem attained_importingSession :
    Attained loneEnvironment ⟨"toy", none⟩ none importingSession :=
  ((Attained.start.hearing (by decide +kernel) (by decide +kernel)).hearing (by decide +kernel)
    (by decide +kernel)).hearing (by decide +kernel) (by decide +kernel)

/-- New settings show in the next answer. -/
theorem answer_eq_remapped :
    ∃ s s' value, Attained loneEnvironment ⟨"toy", none⟩ none s ∧
      Session.step loneCapabilities (.arrival (.message (definitionRequest 2 "u" 1 0))) s.cleared
        = .ok () s' ∧
      firstResult? s'.outbox = some value ∧ placeCount (some value) = 1 ∧
      ∃ uri p, Params.documentPosition? (paramsOf (definitionRequest 2 "u" 1 0)) = some (uri, p) ∧
        ((Query.definition.action loneEnvironment uri p).run s.host.afresh).result = .ok value := by
  have hs : Attained loneEnvironment ⟨"toy", none⟩ none
      (Session.hearing importingSession remappingSettings) :=
    attained_importingSession.hearing (by decide +kernel) (by decide +kernel)
  have hstep := step_of_isHeard (s := Session.hearing importingSession remappingSettings)
    (v := definitionRequest 2 "u" 1 0) (by decide +kernel)
  obtain ⟨request, value, hmem, hvalue⟩ := exists_firstResult? (l := (Session.hearing
    (Session.hearing importingSession remappingSettings) (definitionRequest 2 "u" 1 0)).outbox)
    (by decide +kernel)
  refine ⟨_, _, value, hs, hstep, hvalue, ?_, ?_⟩
  · rw [← hvalue]
    decide +kernel
  · exact Attained.answer_eq hs (by simp) .definition (by decide +kernel) hstep hmem

/-- Without the condition on settings, answers are not always those of a fresh compilation. -/
theorem not_answer_eq_of_broken_settings :
    ¬ ∀ (files : FileSystem) (budget : Nat) (reporter : String) (id : ServerId)
      (spoilt : Option Nat) (s s' : Session Workspace),
      Attained (Toy.environment files budget reporter) id spoilt s →
      ∀ (q : Query) (v : Json), methodOf? v = some q.method.name →
      Session.step (.ofCompiler (Toy.environment files budget reporter) id)
        (.arrival (.message v)) s.cleared = .ok () s' →
      ∀ request value : Json, .result request value ∈ s'.outbox →
      ∃ uri p, Params.documentPosition? (paramsOf v) = some (uri, p) ∧
        ((q.action (Toy.environment files budget reporter) uri p).run s.host.afresh).result
          = .ok value := by
  intro hall
  have hstep := step_of_isHeard (s := Session.hearing importingSession brokenSettings)
    (v := definitionRequest 2 "u" 1 0) (by decide +kernel)
  obtain ⟨request, value, hmem, hvalue⟩ := exists_firstResult? (l := (Session.hearing
    (Session.hearing importingSession brokenSettings) (definitionRequest 2 "u" 1 0)).outbox)
    (by decide +kernel)
  obtain ⟨uri, p, hparams, hfresh⟩ := hall (.empty []) 10 "toy" ⟨"toy", none⟩ _ _ _
    (Attained.step attained_importingSession (step_of_isHeard (v := brokenSettings)
      (by decide +kernel))) .definition (definitionRequest 2 "u" 1 0) (by decide +kernel) hstep
    request value hmem
  -- The answer has no place; from the remapped import it has one.
  have hnone : placeCount (some value) = 0 := by
    rw [← hvalue]
    decide +kernel
  obtain ⟨rfl, rfl⟩ : "u" = uri ∧ (⟨1, 0⟩ : Position) = p := by
    have hread : Params.documentPosition? (paramsOf (definitionRequest 2 "u" 1 0))
        = some ("u", ⟨1, 0⟩) := by decide +kernel
    rw [hread] at hparams
    simpa using hparams
  have hone : placeCount ((Query.definition.action loneEnvironment "u" ⟨1, 0⟩).run
      (Session.hearing importingSession brokenSettings).host.afresh).result.toOption = 1 := by
    decide +kernel
  rw [show ((Query.definition.action loneEnvironment "u" ⟨1, 0⟩).run
      (Session.hearing importingSession brokenSettings).host.afresh).result = .ok value from hfresh]
    at hone
  simp [Except.toOption, hnone] at hone

end Session

end LanguageServer
