import LanguageServer.Proofs.Session.Core
import LanguageServer.Proofs.Session.Reached
import LanguageServer.Proofs.Workspace.Preparation

/-!
# Initialisations that fail

An initialisation that fails leaves the session as it was, up to the root and the
configuration of its workspace: these are taken up one after the other, so what fails behind
the root leaves it there.  An initialisation that names a root replaces both, and goes as if
none had failed before it.

## Main definitions

* `Session.fault?` — the fault that a message ends with.
* `Session.LeavesAtMostRoot` — what a failed initialisation leaves, and what follows it.

## Main statements

* `Session.after_dispatch_initialise` — what an initialisation does.
* `Session.Reached.leavesAtMostRoot` — what holds of a session after a failed initialisation.
-/

namespace LanguageServer

open Workspace

variable {γ α : Type}

namespace Serving

/-! ## Log entries -/

/-- The log entries among the effects. -/
def logged (effects : List Effect) : List Outbound :=
  effects.filterMap fun
    | .log level message => some (.log level message)
    | _ => none

theorem isRemark_logged (effects : List Effect) : ∀ m ∈ logged effects, m.isRemark = true := by
  intro m hm
  obtain ⟨e, -, he⟩ := List.mem_filterMap.1 hm
  cases e <;> cases he
  rfl

/-- Performing an action that says nothing but errors sends them. -/
theorem after_perform_logs {a : Action γ α} {s : Session γ} (hs : s.failing = 0)
    (ha : ∀ x ∈ (a.run s.host).said, ∃ message, x.1 = .log .error message) :
    (perform a).after s = ((a.run s.host).result,
      { s with outbox := s.outbox ++ logged ((a.run s.host).said.map (·.1)),
               host := (a.run s.host).state }) := by
  have hall (l : List (Effect × γ)) (hl : ∀ x ∈ l, ∃ message, x.1 = .log .error message)
      (s : Session γ) (hs : s.failing = 0) :
      deliverAll hear s l = ({ s with outbox := s.outbox ++ logged (l.map (·.1)) }, none) := by
    induction l generalizing s with
    | nil => simp [deliverAll, logged]
    | cons x rest ih =>
      obtain ⟨e, t⟩ := x
      obtain ⟨⟨message, rfl⟩, hrest⟩ := List.forall_mem_cons.1 hl
      rw [deliverAll_cons, show (hear (.log .error message)).after s = _ from after_send hs]
      refine (ih hrest { s with outbox := s.outbox ++ [.log .error message] } hs).trans ?_
      simp [logged]
  rw [after_perform]
  unfold Run.deliver
  rw [hall _ ha s hs]

end Serving

namespace Session

open Serving

variable {env : Environment} {id : ServerId}

/-! ## Naming a root -/

/-- Whether a value is a path that stands for a root. -/
def namesPath : Json → Bool
  | .str path => !path.isEmpty
  | _ => false

/-- Whether the first folder of a list has a URI to stand for a root. -/
def namesFolder : Json → Bool
  | .arr items => (items.filterMap folder?).head?.any (!·.uri.isNull)
  | _ => false

/-- Whether the parameters of an initialisation name a root: by a URI, by a path, or by a folder. -/
def namesRoot (params : Json) : Bool :=
  !(params.fieldOrNull "rootUri").isNull || namesPath (params.fieldOrNull "rootPath") ||
    namesFolder (params.fieldOrNull "workspaceFolders")

/-- A root that is read as null was named neither by a URI nor by a path. -/
theorem names_of_rootOf {params : Json} {s : Session γ}
    (hroot : (rootOf params).after s = (.ok .null, s)) :
    (params.fieldOrNull "rootUri").isNull = true ∧
      namesPath (params.fieldOrNull "rootPath") = false := by
  unfold rootOf at hroot
  split at hroot
  · next huri =>
    refine ⟨by rw [huri]; rfl, ?_⟩
    split at hroot
    · next path hpath =>
      rw [hpath]
      split at hroot
      · next hempty => simpa [namesPath] using hempty
      · split at hroot <;> cases hroot
    · next hpath =>
      cases h : params.fieldOrNull "rootPath" with
      | str path => exact absurd h (hpath path)
      | _ => rfl
  · next hsome => exact absurd (Except.ok.inj (Prod.mk.inj hroot).1) hsome

/-- A folder that is named is the first one that is read. -/
theorem head_of_foldersOf {params : Json} {folders : List WorkspaceFolder} {s : Session γ}
    (hfolders : (foldersOf params).after s = (.ok folders, s))
    (h : namesFolder (params.fieldOrNull "workspaceFolders") = true) :
    folders.head?.any (!·.uri.isNull) = true := by
  unfold foldersOf at hfolders
  cases hv : params.fieldOrNull "workspaceFolders" with
  | arr items =>
    rw [hv] at h
    cases items with
    | nil => cases h
    | cons item rest =>
      simp only [hv, Json.isTruthy, List.isEmpty_cons] at hfolders
      obtain rfl := Except.ok.inj (Prod.mk.inj hfolders).1
      exact h
  | _ => rw [hv] at h; cases h

/-- Parameters that name a root are read as such. -/
theorem isNull_chosenRoot {params root : Json} {folders : List WorkspaceFolder}
    (h : namesRoot params = true) {s : Session γ} (hroot : (rootOf params).after s = (.ok root, s))
    (hfolders : (foldersOf params).after s = (.ok folders, s)) :
    (chosenRoot root folders).isNull = false := by
  cases root with
  | null =>
    obtain ⟨huri, hpath⟩ := names_of_rootOf hroot
    rw [namesRoot, huri, hpath] at h
    have hhead := head_of_foldersOf hfolders h
    unfold chosenRoot
    cases hf : folders.head? with
    | none => simp [hf] at hhead
    | some f => simpa [hf] using hhead
  | _ => rfl

/-! ## Initialising -/

/-- The session after a preparation: it is initialised if that succeeded. -/
def prepared (s : Session Workspace) (trace : Trace) (r : Run Workspace ServerId) :
    Except Fault Json × Session Workspace :=
  let t := { s with outbox := s.outbox ++ logged (r.said.map (·.1)), host := r.state }
  match r.result with
  | .ok id => (.ok (greeting id), { t with lifecycle := .initialized, trace })
  | .error f => (.error f, t)

/-- What an initialisation does. -/
theorem after_dispatch_initialise (env : Environment) (id : ServerId) (params : Json) :
    ∃ read : Trace → Except Fault (Json × List WorkspaceFolder × Trace),
      (∀ s : Session Workspace, s.failing = 0 → s.lifecycle = .uninitialized → ∀ isRequest,
        (dispatch (.ofCompiler env id) Method.initialise.name params isRequest).after s =
          match read s.trace with
          | .error f => (.error f, s)
          | .ok (root, folders, trace) => s.prepared trace ((prepare env id root folders
              (params.fieldOrNull "initializationOptions")).run s.host)) ∧
      ∀ (s : Session Workspace) x, read s.trace = .ok x →
        (rootOf params).after s = (.ok x.1, s) ∧ (foldersOf params).after s = (.ok x.2.1, s) := by
  obtain ⟨read, hread, -, hroot⟩ := exists_reading (.ofCompiler env id) params
  refine ⟨read, fun s hs hl isRequest => ?_, hroot⟩
  have haccepts : (accepts Method.initialise.name isRequest).after s = (.ok true, s) := by
    rcases after_accepts Method.initialise.name isRequest s with ⟨-, haccepts⟩ | ⟨hadmits, -⟩
    · exact haccepts
    · simp [admits, hl] at hadmits
  unfold dispatch
  rw [after_bind, haccepts]
  simp only [if_true, show Method.ofName? Method.initialise.name = some .initialise from rfl]
  refine (hread s).trans ?_
  cases read s.trace with
  | error f => rfl
  | ok x =>
    obtain ⟨root, folders, trace⟩ := x
    have hprepare := isPreparation_prepare env id root folders
      (params.fieldOrNull "initializationOptions") s.host
    have hperform := after_perform_logs hs hprepare.said
    simp only
    rw [show (Capabilities.ofCompiler env id).initialise = prepare env id from rfl, hperform]
    unfold prepared
    cases ((prepare env id root folders (params.fieldOrNull "initializationOptions")).run
      s.host).result <;> rfl

/-- What handling an initialisation comes to, for the session and for the client. -/
theorem step_initialise (env : Environment) (id : ServerId) {v : Json}
    (hv : methodOf? v = some Method.initialise.name) {s : Session Workspace} (hs : s.failing = 0)
    {x : Except Fault Json} {t : Session Workspace}
    (hdispatch : (dispatch (.ofCompiler env id) Method.initialise.name (paramsOf v)
      (v.field? "id").isSome).after
        (s.begun Method.initialise.name (paramsOf v) (v.field? "id").isSome) = (x, t)) :
    step (.ofCompiler env id) (.arrival (.message v)) s =
      .ok () (t.finished (response (v.field? "id") Method.initialise.name x)) := by
  obtain ⟨hadvances, hspares⟩ := says_dispatch (s := s.begun Method.initialise.name (paramsOf v)
    (v.field? "id").isSome) (spareChannel_ofCompiler env id) hs rfl Method.initialise.name
    (paramsOf v) (v.field? "id").isSome
  rw [hdispatch] at hadvances hspares
  have hprocess := after_process hs (.ofCompiler env id) (v.field? "id") Method.initialise.name
    (paramsOf v)
  rw [hdispatch, after_conclude (hadvances.failing.trans hs) _ _ hspares,
    ← receive_eq_process (.ofCompiler env id) hv] at hprocess
  exact ok_of_after hprocess

/-! ## Failing -/

/-- The fault that a message ends with. -/
def fault? (caps : Capabilities γ) (s : Session γ) (v : Json) : Option Fault :=
  match methodOf? v with
  | some method =>
    match ((dispatch caps method (paramsOf v) (v.field? "id").isSome).after
        (s.begun method (paramsOf v) (v.field? "id").isSome)).1 with
    | .error f => some f
    | .ok _ => none
  | none => none

theorem fault?_of_error {caps : Capabilities γ} {s t : Session γ} {v : Json} {method : String}
    {f : Fault} (hmethod : methodOf? v = some method)
    (hdispatch : (dispatch caps method (paramsOf v) (v.field? "id").isSome).after
      (s.begun method (paramsOf v) (v.field? "id").isSome) = (.error f, t)) :
    fault? caps s v = some f := by
  unfold fault?
  rw [hmethod]
  simp only [hdispatch]

/-- What the failed initialisation `v` leaves of the session `s` in `s'`, and what follows it. -/
structure LeavesAtMostRoot (env : Environment) (id : ServerId) (v : Json)
    (s s' : Session Workspace) : Prop where
  /-- Nothing but the root and the configuration is another one. -/
  kept : ∃ base configuration,
    s'.cleared = { s.cleared with host := { s.host with base, configuration } }
  /-- These are the same as well, unless it failed behind the root. -/
  unchanged : (fault? (.ofCompiler env id) s.cleared v).any Fault.isLate = false →
    s'.cleared = s.cleared
  /-- Another initialisation that names a root is answered as if this one had never been sent, and
  if it succeeds, the session is the same then. -/
  repeated : ∀ w t, methodOf? w = some Method.initialise.name → namesRoot (paramsOf w) = true →
    step (.ofCompiler env id) (.arrival (.message w)) s.cleared = .ok () t →
    ∃ t', step (.ofCompiler env id) (.arrival (.message w)) s'.cleared = .ok () t' ∧
      t'.outbox = t.outbox ∧ (t.lifecycle = .initialized → t' = t)

section Failing

variable {s s' : Session Workspace} {v w : Json}

/-- Once a message is handled, nothing but what it did to the capabilities is left of it. -/
theorem cleared_finished (hidle : s.IsIdle) (v : Json) (outbox : List Outbound) (host : Workspace)
    (sent : List Outbound) :
    ({ s.cleared.begun Method.initialise.name (paramsOf v) (v.field? "id").isSome with
      outbox, host }.finished sent).cleared = { s.cleared with host } := by
  simp [finished, cleared, begun, hidle.dispatching, hidle.deferred]

/-- An initialisation that its preparation lets succeed is not answered with an error. -/
theorem not_mem_finished (hidle : s.IsIdle) (v : Json) (trace : Trace) {r : Run Workspace ServerId}
    {server : ServerId} (hr : r.result = .ok server) {x : Except Fault Json} {t : Session Workspace}
    (ht : (s.cleared.begun Method.initialise.name (paramsOf v) (v.field? "id").isSome).prepared
      trace r = (x, t)) (i : Json) (e : RequestError) :
    .failure i e ∉ (t.finished (response (v.field? "id") Method.initialise.name x)).outbox := by
  intro hmem
  simp only [prepared, hr] at ht
  obtain ⟨rfl, rfl⟩ := Prod.mk.inj ht
  simp only [finished, begun, cleared, hidle.deferred, List.nil_append, List.append_nil,
    List.mem_append] at hmem
  -- A receipt and the log are remarks, and the response is a result.
  rcases hmem with (hmem | hmem) | hmem
  · cases isRemark_receipt s.cleared Method.initialise.name _ _ _ hmem
  · cases isRemark_logged _ _ hmem
  · cases v.field? "id" <;> simp [response] at hmem

/-- A failed initialisation leaves what its preparation left. -/
theorem cleared_of_failure (hs : s.failing = 0) (hidle : s.IsIdle)
    (hl : s.lifecycle = .uninitialized) (hv : methodOf? v = some Method.initialise.name)
    (hstep : step (.ofCompiler env id) (.arrival (.message v)) s.cleared = .ok () s')
    {i : Json} {e : RequestError} (hmem : .failure i e ∈ s'.outbox) :
    ∃ base configuration,
      s'.cleared = { s.cleared with host := { s.host with base, configuration } } ∧
        ((fault? (.ofCompiler env id) s.cleared v).any Fault.isLate = false →
          { s.host with base, configuration } = s.host) := by
  obtain ⟨read, hread, -⟩ := after_dispatch_initialise env id (paramsOf v)
  have hdispatch := hread (s.cleared.begun Method.initialise.name (paramsOf v)
    (v.field? "id").isSome) hs hl (v.field? "id").isSome
  cases hx : (dispatch (.ofCompiler env id) Method.initialise.name (paramsOf v)
      (v.field? "id").isSome).after
        (s.cleared.begun Method.initialise.name (paramsOf v) (v.field? "id").isSome) with
  | mk x t =>
  rw [step_initialise (s := s.cleared) env id hv hs hx] at hstep
  obtain rfl := (EStateM.Result.ok.inj hstep).2
  rw [hx, show (s.cleared.begun Method.initialise.name (paramsOf v) (v.field? "id").isSome).trace =
    s.trace from rfl] at hdispatch
  cases hr : read s.trace with
  | error f =>
    rw [hr] at hdispatch
    obtain ⟨rfl, rfl⟩ := Prod.mk.inj hdispatch
    exact ⟨s.host.base, s.host.configuration, cleared_finished hidle v _ s.host _, fun _ => rfl⟩
  | ok reading =>
    obtain ⟨root, folders, trace⟩ := reading
    rw [hr] at hdispatch
    have hprepare := isPreparation_prepare env id root folders
      ((paramsOf v).fieldOrNull "initializationOptions") s.host
    obtain ⟨base, configuration, hstate⟩ := hprepare.state
    cases hresult : ((prepare env id root folders
        ((paramsOf v).fieldOrNull "initializationOptions")).run s.host).result with
    | ok server => exact absurd hmem (not_mem_finished hidle v trace hresult hdispatch.symm i e)
    | error f =>
      simp only [prepared, begun, cleared, hresult, hstate] at hdispatch
      obtain ⟨rfl, rfl⟩ := Prod.mk.inj hdispatch
      refine ⟨base, configuration, cleared_finished hidle v _ _ _, fun hearly => ?_⟩
      rw [fault?_of_error hv hx] at hearly
      rw [← hstate, hprepare.error f hresult hearly]

/-- Two sessions have the same to send, and if the first one is initialised, they are the same. -/
structure IsTwin (s s' : Session Workspace) : Prop where
  deferred : s'.deferred = s.deferred
  outbox : s'.outbox = s.outbox
  same : s.lifecycle = .initialized → s' = s

theorem IsTwin.finished (h : IsTwin s s') (sent : List Outbound) :
    IsTwin (s.finished sent) (s'.finished sent) where
  deferred := rfl
  outbox := by simp only [Session.finished, h.deferred, h.outbox]
  same hl := by rw [h.same hl]

/-- An initialisation that names a root yields the same over any root and configuration. -/
theorem dispatch_named (env : Environment) (id : ServerId) (hs : s.failing = 0)
    (hl : s.lifecycle = .uninitialized) {params : Json} (hnamed : namesRoot params = true)
    (isRequest : Bool) (base : Option Path)
    (configuration : Configuration) :
    ∃ x t t', (dispatch (.ofCompiler env id) Method.initialise.name params isRequest).after s =
        (x, t) ∧
      (dispatch (.ofCompiler env id) Method.initialise.name params isRequest).after
        { s with host := { s.host with base, configuration } } = (x, t') ∧ IsTwin t t' := by
  obtain ⟨read, hread, hreads⟩ := after_dispatch_initialise env id params
  rw [hread s hs hl, hread { s with host := { s.host with base, configuration } } hs hl]
  -- Both read their parameters alike, for they have the same trace level.
  cases hr : read s.trace with
  | error f => exact ⟨_, _, _, rfl, rfl, rfl, rfl, fun h => nomatch hl.symm.trans h⟩
  | ok reading =>
    obtain ⟨root, folders, trace⟩ := reading
    obtain ⟨hroot, hfolders⟩ := hreads s _ hr
    obtain ⟨hsaid, hresult, hstate⟩ := run_prepare_named env id
      (isNull_chosenRoot hnamed hroot hfolders) (params.fieldOrNull "initializationOptions")
      s.host base configuration
    simp only [prepared, hsaid, hresult]
    cases hserver : ((prepare env id root folders
        (params.fieldOrNull "initializationOptions")).run s.host).result with
    | ok server => exact ⟨_, _, _, rfl, rfl, rfl, rfl, fun _ => by rw [hstate server hserver]⟩
    | error f => exact ⟨_, _, _, rfl, rfl, rfl, rfl, fun h => nomatch hl.symm.trans h⟩

/-- An initialisation that names a root is answered alike over any root and configuration, and
leaves the same session if it succeeds. -/
theorem step_named (hs : s.failing = 0) (hl : s.lifecycle = .uninitialized)
    (hw : methodOf? w = some Method.initialise.name) (hnamed : namesRoot (paramsOf w) = true)
    {t : Session Workspace} (hstep : step (.ofCompiler env id) (.arrival (.message w)) s = .ok () t)
    (base : Option Path) (configuration : Configuration) :
    ∃ t', step (.ofCompiler env id) (.arrival (.message w))
        { s with host := { s.host with base, configuration } } = .ok () t' ∧ IsTwin t t' := by
  obtain ⟨x, t₁, t₂, hbare, hover, htwin⟩ := dispatch_named env id
    (s := s.begun Method.initialise.name (paramsOf w) (w.field? "id").isSome) hs hl hnamed
    (w.field? "id").isSome base configuration
  rw [step_initialise env id hw hs hbare] at hstep
  obtain rfl := (EStateM.Result.ok.inj hstep).2
  exact ⟨_, step_initialise (s := { s with host := { s.host with base, configuration } }) env id hw
    hs hover, htwin.finished _⟩

end Failing

theorem Reached.isIdle {stopped : Bool} {sent : List Outbound} {s : Session Workspace}
    (h : Reached env id stopped sent s) : s.failing = 0 ∧ s.IsIdle := by
  induction h with
  | start => exact ⟨rfl, rfl, rfl⟩
  | step h hexited hstep ih =>
    exact isIdle_step (s := Session.cleared _) (spareChannel_ofCompiler env id) ih.1
      ⟨ih.2.dispatching, ih.2.deferred⟩ hstep

/-- An initialisation that is answered with an error leaves nothing but, at most, its root and some
of its settings; not even these if it fails early; and nothing that an initialisation with a root
would meet. -/
theorem Reached.leavesAtMostRoot {stopped : Bool} {sent : List Outbound} {s s' : Session Workspace}
    (h : Reached env id stopped sent s) (hl : s.lifecycle = .uninitialized) {v : Json}
    (hv : methodOf? v = some Method.initialise.name)
    (hstep : Session.step (.ofCompiler env id) (.arrival (.message v)) s.cleared = .ok () s')
    {i : Json} {e : RequestError} (hmem : .failure i e ∈ s'.outbox) :
    LeavesAtMostRoot env id v s s' := by
  obtain ⟨hs, hidle⟩ := h.isIdle
  obtain ⟨base, configuration, hcleared, hearly⟩ := cleared_of_failure hs hidle hl hv hstep hmem
  refine ⟨⟨base, configuration, hcleared⟩, fun hfault => ?_, fun w t hw hnamed hstep' => ?_⟩
  · rw [hcleared, hearly hfault]
    rfl
  · rw [hcleared]
    obtain ⟨t', hagain, htwin⟩ :=
      step_named (s := s.cleared) hs hl hw hnamed hstep' base configuration
    exact ⟨t', hagain, htwin.outbox, htwin.same⟩

/-- A workspace whose configuration file is no text. -/
def garbledFiles : FileSystem where
  files := .ofList [(["w", ".compilerls.yaml"], [0xff])]
  links := .ofList []
  workingDirectory := []

/-- The toy engine over these files. -/
def garbledEnvironment : Environment := ⟨garbledFiles, fun _ => Toy.engine 2, "toy"⟩

/-- An initialisation with a root. -/
def initialisationAt (uri : String) : Json :=
  requestOf 1 .initialise (.obj [("rootUri", .str uri)])

/-- The session after an initialisation at this workspace. -/
def garbled : Session Workspace :=
  ((step (.ofCompiler garbledEnvironment ⟨"toy", none⟩)
    (.arrival (.message (initialisationAt "file:///w")))).after { host := .empty }).2

/-- A configuration file that is no text makes the initialisation fail and leaves its root there,
but an initialisation at another root makes good for it. -/
theorem Reached.leavesAtMostRoot_garbled :
    LeavesAtMostRoot garbledEnvironment ⟨"toy", none⟩ (initialisationAt "file:///w")
        { host := .empty } garbled ∧
      garbled.lifecycle = .uninitialized ∧ garbled.host.base = some (.ofString "/w") ∧
      ∃ t, Session.step (.ofCompiler garbledEnvironment ⟨"toy", none⟩)
          (.arrival (.message (initialisationAt "file:///v"))) garbled.cleared = .ok () t ∧
        t.lifecycle = .initialized ∧ t.host.base = some (.ofString "/v") := by
  have houtbox : garbled.outbox = [.failure (.int 1)
      (.of .internalError ("Unhandled exception: " ++ Fault.fileNotText.description))] := rfl
  have hleaves : LeavesAtMostRoot garbledEnvironment ⟨"toy", none⟩ (initialisationAt "file:///w")
      { host := .empty } garbled :=
    Reached.start.leavesAtMostRoot rfl rfl (step_of_isOk (by decide +kernel))
      (houtbox ▸ List.mem_singleton_self _)
  obtain ⟨t', hstep, -, hsame⟩ := hleaves.repeated (initialisationAt "file:///v") _ rfl
    (by decide +kernel) (step_of_isOk (by decide +kernel))
  rw [hsame (by decide +kernel)] at hstep
  exact ⟨hleaves, rfl, by decide +kernel, _, hstep, by decide +kernel, by decide +kernel⟩

end Session

end LanguageServer
