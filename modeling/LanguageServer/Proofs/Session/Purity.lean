import LanguageServer.Proofs.Session.Freshness
import LanguageServer.Proofs.Session.Standing

/-!
# Queries leave no trace

A query may compile, and so replace everything that is known from the latest compilation;
still no message after it can tell whether it was asked.  Two runs of a session are
compared, of which one has more queries than the other: the messages that both have are
answered in the same way, and make the server say and publish the same.

There is one gap.  If compiling was stopped, and nothing has made up for that, the latest
program may be older than the documents; a query that can compile them again then decides
which documents the next close forgets.

## Main definitions

* `Session.replies` — what a session sends, message by message, besides inserted ones.
* `Session.isSteady` — nothing relies on the latest program while compiling is stopped.

## Main statements

* `Session.replies_eq_of_isSteady` — inserted queries do not show in what is sent for other messages.
-/

namespace LanguageServer

open Workspace

namespace Session

open Serving

variable {γ : Type} {env : Environment} {id : ServerId} {budget : Nat} {stopped : Bool}

/-! ## One query -/

/-- Whether something that is received asks about a place in a document. -/
def asks : Received → Bool
  | .message v => ((methodOf? v).bind Method.ofName?).any (·.isQuery)
  | _ => false

theorem isDelegated_of_isQuery {m : Method} (h : m.isQuery = true) : m.isDelegated = true := by
  cases m <;> first | rfl | cases h

/-- What a query asks of the compiler says nothing and leaves a settled workspace like the one
before. -/
theorem resembles_deed (henv : env.IsToy budget) {m : Method} (hm : m.isQuery = true) {params : Json}
    {a : Action Workspace Json} (ha : deed? (.ofCompiler env id) m params = some a) {ws : Workspace}
    (h : ws.IsSettled env) :
    (a.run ws).audible = [] ∧ Resembles (IsSettled env) ws (a.run ws).state := by
  have hmapped {α : Type} {answer : Program → String → Position → Action Workspace α}
      {f : View → Program → String → Position → Except Fault α}
      (hreads : ∀ program source p, Reads (answer program source p) fun v => f v program source p)
      (uri : String) (p : Position) (g : α → Json) :
      ((do return g (← query env answer uri p) : Action Workspace Json).run ws).audible = [] ∧
        Resembles (IsSettled env) ws
          ((do return g (← query env answer uri p) : Action Workspace Json).run ws).state := by
    rw [Action.run_bind_pure]
    exact resembles_query hreads henv h uri p
  cases isDeed_of_deed? ha with
  | definition _ => exact hmapped reads_definition _ _ _
  | highlights _ => exact hmapped reads_highlights _ _ _
  | references _ => exact hmapped reads_references _ _ _
  | _ => cases hm

/-- A query that is dispatched in one of two matched sessions changes nothing in it but the
workspace, which still matches the other. -/
theorem dispatch_query (id : ServerId) (henv : env.IsToy budget) {m : Method} (hm : m.isQuery = true)
    {s : Session Workspace} (hexited : s.lifecycle ≠ .exited)
    (hcalm : s.lifecycle = .initialized → stopped = false) (params : Json) (isRequest : Bool)
    {ws : Workspace} (h : Matched env stopped s.lifecycle ws s.host) :
    ∃ x calls host, (dispatch (.ofCompiler env id) m.name params isRequest).after s =
        (x, { s with calls, host }) ∧ (∀ reason, x ≠ .error (.channel reason)) ∧
      Matched env stopped s.lifecycle ws host := by
  rcases exists_dispatch (.ofCompiler env id) m.name params isRequest s.lifecycle with
    ⟨x, hrefused, -, hdispatch⟩ | ⟨hadmits, m', hname', hdispatch⟩
  · refine ⟨x, s.calls, s.host, hdispatch s rfl, fun reason hx => ?_, h⟩
    obtain ⟨e, he⟩ := hrefused _ hx
    cases he
  · obtain rfl := Option.some.inj ((Method.ofName?_name m).symm.trans hname')
    have hl : s.lifecycle = .initialized :=
      (lifecycle_of_admits hadmits (isDelegated_of_isQuery hm)).resolve_right hexited
    rw [hdispatch s rfl]
    rcases handle_delegated (.ofCompiler env id) (isDelegated_of_isQuery hm) params with
      ⟨a, ha, hperform⟩ | ⟨-, e, hrefuse⟩
    · have halike := h.standing.alike (hcalm hl)
      obtain ⟨hsilent, hlike⟩ := resembles_deed henv hm ha halike.right
      obtain ⟨calls, hafter⟩ := after_perform_inaudible hsilent
      refine ⟨_, calls, _, (hperform s).trans hafter, ?_, ?_⟩
      · exact sparesChannel_deed (spareChannel_ofCompiler env id) ha s.host
      · exact ⟨(halike.trans hlike).standing stopped, fun heq => by simp [hl] at heq⟩
    · exact ⟨_, s.calls, s.host, hrefuse s, fun _ => nofun, h⟩

/-- A query that one of two matched sessions receives leaves it idle and matched with the other. -/
theorem receive_query (id : ServerId) (henv : env.IsToy budget) {s s' : Session Workspace}
    (h : Accords (Matched env stopped) s s') (hexited : s.lifecycle ≠ .exited) (hidle : s'.IsIdle)
    {v : Json} (hasks : asks (.message v) = true)
    (hcalm : stopped = true → ∀ m, handled? s v = some m → m.isReliant = false) :
    ∃ t, receive (.ofCompiler env id) v s' = .ok () t ∧ t.IsIdle ∧
      Accords (Matched env stopped) s.cleared t.cleared := by
  obtain ⟨m, hmethod, hm⟩ : ∃ m : Method, methodOf? v = some m.name ∧ m.isQuery = true := by
    obtain ⟨m, hbind, hm⟩ := (Option.any_eq_true _ _).1 hasks
    obtain ⟨method, hmethod, hname⟩ := Option.bind_eq_some_iff.1 hbind
    exact ⟨m, name_of_ofName? hname ▸ hmethod, hm⟩
  have hrest : s.lifecycle = .initialized → stopped = false := fun hl => by
    have hreliant : m.isReliant = true := by simp [Method.isReliant, hm]
    by_contra hne
    have hcalmed := hcalm (by simpa using hne) m
      (by simp [handled?, hl, hmethod, Method.ofName?_name])
    simp [hreliant] at hcalmed
  have hl := h.lifecycle_eq
  have hright := h.working_right
  obtain ⟨⟨calls, host, hsame⟩, hworking, hhosts⟩ := h
  obtain ⟨x, calls', host', hdispatch, hspares, hmatched⟩ := dispatch_query id henv hm
    (s := s'.begun m.name (paramsOf v) (v.field? "id").isSome) (hl ▸ hexited) (hl ▸ hrest)
    (paramsOf v) (v.field? "id").isSome (hl ▸ hhosts)
  have hreceive := after_process hright (.ofCompiler env id) (v.field? "id") m.name (paramsOf v)
  rw [← receive_eq_process _ hmethod, hdispatch] at hreceive
  have hconclude := after_conclude (s := { s'.begun m.name (paramsOf v) (v.field? "id").isSome with
    calls := calls', host := host' }) hright (v.field? "id") m.name hspares
  refine ⟨_, ok_of_after (hreceive.trans hconclude), ⟨rfl, rfl⟩, ⟨[], host', ?_⟩, hworking,
    hl ▸ hmatched⟩
  obtain ⟨hdispatching, hdeferred⟩ := hidle
  rw [hsame] at hdispatching hdeferred
  simp only at hdispatching hdeferred
  simp only [cleared, finished, begun, hsame, hdispatching, hdeferred]

/-! ## Runs -/

/-- Whether compiling is stopped after something was received. -/
def stopsAfter (caps : Capabilities γ) (s : Session γ) (stopped : Bool) : Received → Bool
  | .message v => stopsAt caps s stopped v
  | _ => stopped

/-- Whether a session relies on the latest program when it receives something. -/
def relies (s : Session γ) : Received → Bool
  | .message v => (handled? s v).any (·.isReliant)
  | _ => false

/-- Along a session nothing that is received relies on the latest program while compiling is
stopped.  Inserted entries are marked; the session goes on without them. -/
def isSteady (caps : Capabilities γ) (s : Session γ) (stopped : Bool) :
    List (Received × Bool) → Bool
  | [] => true
  | (r, inserted) :: rest =>
    !(stopped && relies s.cleared r) &&
      if inserted then isSteady caps s stopped rest
      else
        match step caps (.arrival r) s.cleared with
        | .ok () s' => isSteady caps s' (stopsAfter caps s.cleared stopped r) rest
        | .error _ _ => true

/-- What a session sends, message by message, for all that it receives besides inserted entries. -/
def replies (caps : Capabilities γ) (s : Session γ) (l : List (Received × Bool)) :
    List (List Outbound) :=
  ((runAll caps s (l.map (.arrival ·.1))).steps.zip l).filterMap fun x =>
    if x.2.2 then none else some x.1.outbox

/-- What was received, without inserted entries. -/
def originals (l : List (Received × Bool)) : List Event :=
  (l.filter (!·.2)).map (.arrival ·.1)

/-- Something that is received has the same outcome in matched sessions, unless it relies on what is
not known. -/
theorem agree_step (id : ServerId) (henv : env.IsToy budget) {s s' : Session Workspace}
    (h : Accords (Matched env stopped) s s') (hexited : s.lifecycle ≠ .exited) {r : Received}
    (hcalm : (stopped && relies s r) = false) :
    Agree (Accords (Matched env (stopsAfter (.ofCompiler env id) s stopped r)))
      (step (.ofCompiler env id) (.arrival r)) (step (.ofCompiler env id) (.arrival r)) s s' := by
  cases r with
  | message v =>
    refine agree_receive henv h hexited fun hstopped m hm => ?_
    simpa [relies, hstopped, hm] using hcalm
  | malformed reason => exact relates_send _ s s' h
  | failed reason => exact ⟨rfl, h⟩
  | oversized => exact ⟨rfl, h⟩
  | closed => exact ⟨rfl, h⟩

/-- A session is idle again after something was received, and its sends still work. -/
theorem isIdle_step {caps : Capabilities γ} (hcaps : caps.SpareChannel) {s s' : Session γ}
    (hs : s.failing = 0) (hidle : s.IsIdle) {r : Received}
    (hstep : step caps (.arrival r) s = .ok () s') : s'.failing = 0 ∧ s'.IsIdle := by
  cases r with
  | message v =>
    cases hmethod : methodOf? v with
    | none =>
      rcases receive_unhandled caps hmethod with ⟨-, hreceive⟩ | ⟨-, id, e, hreceive⟩
      · rw [show step caps (.arrival (.message v)) = pure () from hreceive] at hstep
        injection hstep with _ hstep
        exact hstep ▸ ⟨hs, hidle⟩
      · rw [show step caps (.arrival (.message v)) = send _ from hreceive] at hstep
        obtain rfl := send_eq_ok hstep
        exact ⟨hs, hidle.dispatching, hidle.deferred⟩
    | some method =>
      obtain ⟨t, _, _, hreceive, hworking, hidle', -⟩ := receive_handled hcaps hs hidle hmethod
      obtain rfl : t = s' := by
        have heq := hreceive.symm.trans hstep
        injection heq
      exact ⟨hworking, hidle'⟩
  | malformed reason =>
    obtain rfl := send_eq_ok hstep
    exact ⟨hs, hidle.dispatching, hidle.deferred⟩
  | closed =>
    injection hstep with _ hstep
    exact hstep ▸ ⟨hs, hidle⟩
  | failed reason => cases hstep
  | oversized => cases hstep

theorem runAll_of_exited {caps : Capabilities γ} {s : Session γ} (hexited : s.lifecycle = .exited)
    (events : List Event) : (runAll caps s events).steps = [] := by
  cases events with
  | nil => rfl
  | cons e rest => rw [runAll, if_pos hexited]

theorem runAll_of_closing {caps : Capabilities γ} {s : Session γ} {e : Event}
    (hexited : s.lifecycle ≠ .exited) (hclosing : isClosing e = true) (rest : List Event) :
    (runAll caps s (e :: rest)).steps = [s.cleared] := by
  rw [runAll, if_neg hexited, if_pos hclosing]

theorem runAll_of_ok {caps : Capabilities γ} {s t : Session γ} {e : Event}
    (hexited : s.lifecycle ≠ .exited) (hclosing : isClosing e = false)
    (hstep : step caps e s.cleared = .ok () t) (rest : List Event) :
    (runAll caps s (e :: rest)).steps = t :: (runAll caps t rest).steps := by
  rw [runAll, if_neg hexited, if_neg (by simp [hclosing]), hstep]

theorem runAll_of_error {caps : Capabilities γ} {s t : Session γ} {e : Event} {f : Fault}
    (hexited : s.lifecycle ≠ .exited) (hclosing : isClosing e = false)
    (hstep : step caps e s.cleared = .error f t) (rest : List Event) :
    (runAll caps s (e :: rest)).steps = [t] := by
  rw [runAll, if_neg hexited, if_neg (by simp [hclosing]), hstep]
  cases f <;> rfl

theorem replies_of_exited {caps : Capabilities γ} {s : Session γ} (hexited : s.lifecycle = .exited)
    (l : List (Received × Bool)) : replies caps s l = [] := by
  rw [replies, runAll_of_exited hexited]
  rfl

theorem replies_of_ok {caps : Capabilities γ} {s t : Session γ} {r : Received}
    (hexited : s.lifecycle ≠ .exited) (hclosing : isClosing (.arrival r) = false)
    (hstep : step caps (.arrival r) s.cleared = .ok () t) (inserted : Bool)
    (rest : List (Received × Bool)) :
    replies caps s ((r, inserted) :: rest) =
      (if inserted then [] else [t.outbox]) ++ replies caps t rest := by
  unfold replies
  rw [List.map_cons, runAll_of_ok hexited hclosing hstep]
  cases inserted <;> rfl

/-- The session that ends with an entry sends nothing for later ones. -/
theorem replies_of_steps {caps : Capabilities γ} {s t : Session γ} {r : Received}
    {rest : List (Received × Bool)}
    (h : (runAll caps s (.arrival r :: rest.map (.arrival ·.1))).steps = [t]) :
    replies caps s ((r, false) :: rest) = [t.outbox] := by
  unfold replies
  rw [List.map_cons, h]
  rfl

/-- Inserted queries do not show in what is sent for other messages, from matched sessions on. -/
theorem replies_eq_of_accords (henv : env.IsToy budget) {l : List (Received × Bool)}
    (hasks : ∀ x ∈ l, x.2 = true → asks x.1 = true) {s s' : Session Workspace}
    (h : Accords (Matched env stopped) s.cleared s'.cleared) (hidle : s'.IsIdle)
    (hsteady : isSteady (.ofCompiler env id) s stopped l = true) :
    replies (.ofCompiler env id) s' l =
      (runAll (.ofCompiler env id) s (originals l)).steps.map (·.outbox) := by
  induction l generalizing s s' stopped with
  | nil => rfl
  | cons x rest ih =>
    obtain ⟨r, inserted⟩ := x
    have hrest : ∀ x ∈ rest, x.2 = true → asks x.1 = true := fun x hx =>
      hasks x (List.mem_cons_of_mem _ hx)
    have hl : s'.lifecycle = s.lifecycle := h.lifecycle_eq
    simp only [isSteady, Bool.and_eq_true, Bool.not_eq_true'] at hsteady
    obtain ⟨hcalm, hsteady⟩ := hsteady
    have hclearedIdle : s'.cleared.IsIdle := ⟨hidle.dispatching, hidle.deferred⟩
    by_cases hexited : s.lifecycle = .exited
    · rw [runAll_of_exited hexited, replies_of_exited (hl.trans hexited)]
      rfl
    have hexited' : s'.lifecycle ≠ .exited := hl ▸ hexited
    cases inserted with
    | true =>
      -- Only the session that is asked goes on, and it still accords with the other.
      obtain ⟨v, rfl⟩ : ∃ v, r = .message v := by
        have hr := hasks _ List.mem_cons_self rfl
        cases r with
        | message v => exact ⟨v, rfl⟩
        | _ => cases hr
      obtain ⟨t, hreceive, htidle, ht⟩ := receive_query id henv h hexited hclearedIdle
        (hasks _ List.mem_cons_self rfl) fun hstopped m hm => by
          simpa [relies, hstopped, hm] using hcalm
      have hreplies := replies_of_ok (r := .message v) hexited' rfl hreceive
      rw [hreplies]
      exact ih hrest ht htidle hsteady
    | false =>
      have horiginals : originals ((r, false) :: rest) = .arrival r :: originals rest := rfl
      rw [horiginals]
      cases hclosing : isClosing (.arrival r) with
      | true =>
        rw [runAll_of_closing hexited hclosing,
          replies_of_steps (runAll_of_closing hexited' hclosing _)]
        rfl
      | false =>
        obtain ⟨hresult, hstate⟩ := agree_step id henv h hexited hcalm
        simp only [Bool.false_eq_true, if_false] at hsteady
        unfold Serving.after at hresult hstate
        cases hstep : step (.ofCompiler env id) (.arrival r) s.cleared with
        | ok u t =>
          cases hstep' : step (.ofCompiler env id) (.arrival r) s'.cleared with
          | error f t' => simp [hstep, hstep'] at hresult
          | ok u' t' =>
            simp only [hstep, hstep'] at hstate hsteady
            have hidle' := (isIdle_step (spareChannel_ofCompiler env id) h.working_right
              hclearedIdle hstep').2
            rw [replies_of_ok hexited' hclosing hstep', runAll_of_ok hexited hclosing hstep,
              ih hrest hstate.cleared hidle' hsteady, hstate.outbox_eq]
            rfl
        | error f t =>
          cases hstep' : step (.ofCompiler env id) (.arrival r) s'.cleared with
          | ok u t' => simp [hstep, hstep'] at hresult
          | error f' t' =>
            simp only [hstep, hstep'] at hstate
            rw [runAll_of_error hexited hclosing hstep,
              replies_of_steps (runAll_of_error hexited' hclosing hstep' _), hstate.outbox_eq]
            rfl

/-! ## Sessions with the toy engine -/

/-- Queries leave no trace.  If definitions, references or highlights are asked for in addition,
with any parameters and anywhere between the messages to a session, then everything that the server
sends while it handles the other messages is the same, in the same order.  Nothing may rely on the
latest program while compiling is stopped: after a message whose documents or settings could not be
compiled, because of a path or of the engine, neither is a query asked nor a document closed before
a message that brings documents or settings is handled to its end. -/
theorem replies_eq_of_isSteady {files : FileSystem} {reporter : String}
    {l : List (Received × Bool)} (hasks : ∀ x ∈ l, x.2 = true → asks x.1 = true)
    (hsteady : isSteady (.ofCompiler (Toy.environment files budget reporter) id) { host := .empty }
      false l = true) :
    replies (.ofCompiler (Toy.environment files budget reporter) id) { host := .empty } l =
      (runAll (.ofCompiler (Toy.environment files budget reporter) id) { host := .empty }
        (originals l)).steps.map (·.outbox) := by
  have hempty : Idle (Toy.environment files budget reporter) .empty .empty :=
    ⟨.refl isSettled_empty, rfl⟩
  exact replies_eq_of_accords (show Environment.IsToy _ budget from fun _ => rfl) hasks
    ⟨⟨[], .empty, rfl⟩, rfl, matched_idle hempty⟩ ⟨rfl, rfl⟩ hsteady

/-- The notification that a document has a new text. -/
def changing (uri : String) (version : Int) (text : String) : Json :=
  notificationOf .didChange (.obj
    [("textDocument", .obj [("uri", .str uri), ("version", .int version)]),
      ("contentChanges", .arr [.obj [("text", .str text)]])])

/-- The notification that a document was closed. -/
def closing (uri : String) : Json :=
  notificationOf .didClose (.obj [("textDocument", .obj [("uri", .str uri)])])

/-- A message that is not inserted. -/
def own (v : Json) : Received × Bool := (.message v, false)

/-- A message that is inserted. -/
def inserted (v : Json) : Received × Bool := (.message v, true)

/-- A document is closed while another imports it; a query compiles again, before the import is
dropped and the importing document is closed. -/
def importingConversation : List (Received × Bool) :=
  [own (requestOf 1 .initialise (.obj [])), own (opening "l" "var f = 1;"),
    own (opening "u" "import \"l\";\nf;"), own (closing "l"),
    inserted (definitionRequest 2 "u" 1 0), own (definitionRequest 3 "u" 1 0),
    own (changing "u" 2 "f;"), inserted (definitionRequest 4 "l" 0 4), own (closing "u")]

/-- The queries between the messages about an import do not show. -/
theorem replies_eq_importingConversation :
    (importingConversation.countP (·.2)) = 2 ∧
    replies loneCapabilities { host := .empty } importingConversation =
      (runAll loneCapabilities { host := .empty }
        (originals importingConversation)).steps.map (·.outbox) :=
  ⟨by decide, replies_eq_of_isSteady (by decide +kernel) (by decide +kernel)⟩

/-- Compiling is stopped by the path of an import, and while it is, a document begins to import
another one.  When the first one is closed, nothing is in the way of compiling any more, which only a
query does before the imported document is closed as well. -/
def stoppedConversation : List (Received × Bool) :=
  [own (opening "a" ""), own (opening "b" ""), own (opening "c" ""),
    own (changing "c" 2 "import \"/\x00\";"), own (changing "a" 2 "import \"b\";"),
    own (closing "c"), inserted (definitionRequest 2 "a" 0 0), own (closing "b")]

/-- While compiling is stopped, a query decides which documents are forgotten. -/
theorem not_replies_eq_of_stopped :
    ¬ ∀ (files : FileSystem) (budget : Nat) (reporter : String) (id : ServerId)
      (l : List (Received × Bool)), (∀ x ∈ l, x.2 = true → asks x.1 = true) →
      (∀ x ∈ l, ∀ v, x.1 = .message v → methodOf? v ≠ some Method.shutdown.name) →
      replies (.ofCompiler (Toy.environment files budget reporter) id) { host := .empty }
          (own (requestOf 1 .initialise (.obj [])) :: l) =
        (runAll (.ofCompiler (Toy.environment files budget reporter) id) { host := .empty }
          (originals (own (requestOf 1 .initialise (.obj [])) :: l))).steps.map (·.outbox) := by
  intro hall
  have heq := hall (.empty []) 10 "toy" ⟨"toy", none⟩ stoppedConversation (by decide +kernel) ?_
  · have hlengths := congrArg (List.map List.length) heq
    exact absurd hlengths (by decide +kernel)
  · intro x hx v hv
    simp only [stoppedConversation, List.mem_cons, List.not_mem_nil, or_false] at hx
    rcases hx with rfl | rfl | rfl | rfl | rfl | rfl | rfl | rfl <;>
      obtain rfl := Received.message.inj hv <;> decide

end Session

end LanguageServer
