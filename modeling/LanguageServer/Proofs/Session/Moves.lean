import LanguageServer.Proofs.Session.Core
import LanguageServer.Proofs.Session.Refinement
import LanguageServer.Session.Scripted

/-!
# How an event moves a session on

A session begins uninitialised and only moves forward: by an initialisation that succeeds,
by a shutdown, and from anywhere by an exit.  The capabilities are asked to prepare only
before the initialisation, and for anything else only between the initialisation and the
shutdown.

Which calls are made is seen by noting them: any capabilities can be made to keep a list of
the calls beside their state, and nothing else changes by that.

## Main definitions

* `Capabilities.noting` — capabilities that note how they are called.
* `Session.Proceeds` — how a message can move a session on.
* `Session.Calls` — the calls that are admitted meanwhile.
* `Session.Moves` — a session proceeds, with the calls that this admits.

## Main statements

* `Capabilities.refine_noting` — noting calls changes nothing else.
* `Session.moves_handle`, `Session.moves_dispatch`, `Session.moves_step` — what a
  method, a message and an event do.
* `Session.lifecycle_step_exit` — an exit is handled.
-/

namespace LanguageServer

/-! ## Noting calls -/

/-- A call of the capabilities, and whether it returned. -/
structure Note where
  call : Call
  returned : Bool

/-- Whether the capabilities are asked to prepare. -/
def Call.isInitialise : Call → Bool
  | .initialise .. => true
  | _ => false

variable {γ δ α β : Type}

/-- The action, with its call noted beside the state: as one that did not return wherever the action
can be stopped, and at its end as one that returned if the action succeeds. -/
def Action.noting (call : Call) (a : Action γ α) : Action (γ × List Note) α := fun s =>
  { said := (a.run s.1).said.map fun x => (x.1, x.2, s.2 ++ [⟨call, false⟩])
    result := (a.run s.1).result
    state := ((a.run s.1).state, s.2 ++ [⟨call, (a.run s.1).result.isOk⟩]) }

/-- The capabilities, with all calls noted beside their state. -/
def Capabilities.noting (caps : Capabilities γ) : Capabilities (γ × List Note) where
  initialise root folders options :=
    (caps.initialise root folders options).noting (.initialise root folders options)
  initialised := caps.initialised.noting .initialised
  changeConfiguration settings :=
    (caps.changeConfiguration settings).noting (.changeConfiguration settings)
  documentOpened d := (caps.documentOpened d).noting (.documentOpened d)
  documentChanged uri version changes :=
    (caps.documentChanged uri version changes).noting (.documentChanged uri version changes)
  documentClosed uri := (caps.documentClosed uri).noting (.documentClosed uri)
  definition uri p := (caps.definition uri p).noting (.definition uri p)
  references uri p := (caps.references uri p).noting (.references uri p)
  highlights uri p := (caps.highlights uri p).noting (.highlights uri p)

theorem Action.refines_noting (call : Call) (a : Action γ α) :
    (a.noting call).Refines Prod.fst a := by
  intro s
  show _ = ((a.noting call) s).mapState Prod.fst
  simp only [noting, Run.mapState, List.map_map]
  rw [show ((fun x : Effect × γ × List Note => (x.1, x.2.1)) ∘
    fun x : Effect × γ => (x.1, x.2, s.2 ++ [⟨call, false⟩])) = id from rfl, List.map_id]

/-- Noting calls changes nothing else. -/
theorem Capabilities.refine_noting (caps : Capabilities γ) : caps.noting.Refine Prod.fst caps where
  initialise _ _ _ := Action.refines_noting _ _
  initialised := Action.refines_noting _ _
  changeConfiguration _ := Action.refines_noting _ _
  documentOpened _ := Action.refines_noting _ _
  documentChanged _ _ _ := Action.refines_noting _ _
  documentClosed _ := Action.refines_noting _ _
  definition _ _ := Action.refines_noting _ _
  references _ _ := Action.refines_noting _ _
  highlights _ _ := Action.refines_noting _ _

namespace Session

open Serving

/-- The calls that were noted. -/
def notes (s : Session (γ × List Note)) : List Note := s.host.2

/-- Performing an action whose call is noted. -/
theorem notes_perform (call : Call) (a : Action γ α) (s : Session (γ × List Note)) :
    ((perform (a.noting call)).after s).2.notes =
      s.notes ++ [⟨call, ((perform (a.noting call)).after s).1.isOk⟩] := by
  rw [after_perform]
  unfold notes
  rcases Run.deliver_cases hear ((a.noting call).run s.host) s with h | ⟨entry, hmem, _, _, _, -, h⟩
  · rw [h]
    rfl
  · rw [h]
    obtain ⟨x, -, rfl⟩ := List.mem_map.1 hmem
    rfl

/-! ## One message -/

/-- How a message with a method can move a session on.  Anything else leaves it where it is. -/
inductive Proceeds (method? : Option String) (s t : Session δ) : Prop
  | stays (lifecycle : t.lifecycle = s.lifecycle)
      (shutdown : t.shutdownRequested = s.shutdownRequested)
  | initialises (method : method? = some Method.initialise.name)
      (before : s.lifecycle = .uninitialized) (after : t.lifecycle = .initialized)
      (shutdown : t.shutdownRequested = s.shutdownRequested)
  | shutsDown (method : method? = some Method.shutdown.name)
      (before : s.lifecycle = .initialized) (after : t.lifecycle = .shuttingDown)
      (shutdown : t.shutdownRequested = true)
  | exits (method : method? = some Method.exit.name)
      (before : s.lifecycle ≠ .exited) (after : t.lifecycle = .exited)
      (shutdown : t.shutdownRequested = s.shutdownRequested)

namespace Proceeds

variable {method? : Option String} {s t : Session δ}

/-- Only an exit ends a session. -/
theorem eq_exit (h : Proceeds method? s t) (hs : s.lifecycle ≠ .exited)
    (ht : t.lifecycle = .exited) : method? = some Method.exit.name := by
  cases h with
  | stays hl => exact absurd (hl ▸ ht) hs
  | exits hm => exact hm
  | initialises _ _ ha => cases ha.symm.trans ht
  | shutsDown _ _ ha => cases ha.symm.trans ht

/-- Nothing leads back to an uninitialised session. -/
theorem eq_uninitialized (h : Proceeds method? s t) (ht : t.lifecycle = .uninitialized) :
    s.lifecycle = .uninitialized := by
  cases h with
  | stays hl => exact hl.symm.trans ht
  | initialises _ _ ha => cases ha.symm.trans ht
  | shutsDown _ _ ha => cases ha.symm.trans ht
  | exits _ _ ha => cases ha.symm.trans ht

/-- A shutdown stays requested. -/
theorem requested (h : Proceeds method? s t) (hs : s.shutdownRequested = true) :
    t.shutdownRequested = true := by
  cases h with
  | shutsDown _ _ _ hr => exact hr
  | _ => simp_all

end Proceeds

/-- The calls that are admitted while a message takes a session from one point of its life to
another: the session asks the capabilities to prepare only for an initialisation, while it is
uninitialised, and becomes initialised exactly if they did; and it asks them for anything else only
if it is initialised. -/
inductive Calls (method? : Option String) (before after : Lifecycle) : List Note → Prop
  | none (h : before = .uninitialized → after ≠ .initialized) : Calls method? before after []
  | preparing {n : Note} (call : n.call.isInitialise = true)
      (method : method? = some Method.initialise.name) (lifecycle : before = .uninitialized)
      (returned : n.returned = true ↔ after = .initialized) : Calls method? before after [n]
  | working {n : Note} (call : n.call.isInitialise = false) (method : method?.isSome = true)
      (lifecycle : before = .initialized) : Calls method? before after [n]

/-- The session proceeds, and meanwhile only such calls are made as this admits. -/
structure Moves (method? : Option String) (s t : Session (γ × List Note)) : Prop where
  proceeds : Proceeds method? s t
  calls : ∃ new, t.notes = s.notes ++ new ∧ Calls method? s.lifecycle t.lifecycle new

section Message

variable {method? : Option String} {s t s' t' : Session (γ × List Note)}

/-- Only the core of a session counts. -/
theorem Moves.of_core (hs : s'.core = s.core) (ht : t'.core = t.core)
    (h : Moves method? s t) : Moves method? s' t' := by
  have hlife := lifecycle_eq_of_core hs
  have hlife' := lifecycle_eq_of_core ht
  have hshut := shutdownRequested_eq_of_core hs
  have hshut' := shutdownRequested_eq_of_core ht
  have hnotes : s'.notes = s.notes := congrArg Prod.snd (host_eq_of_core hs)
  have hnotes' : t'.notes = t.notes := congrArg Prod.snd (host_eq_of_core ht)
  refine ⟨?_, ?_⟩
  · cases h.proceeds with
    | stays hl hr => exact .stays (by rw [hlife, hlife', hl]) (by rw [hshut, hshut', hr])
    | initialises hm hb ha hr =>
      exact .initialises hm (hlife.trans hb) (hlife'.trans ha) (by rw [hshut, hshut', hr])
    | shutsDown hm hb ha hr =>
      exact .shutsDown hm (hlife.trans hb) (hlife'.trans ha) (hshut'.trans hr)
    | exits hm hb ha hr =>
      exact .exits hm (hlife ▸ hb) (hlife'.trans ha) (by rw [hshut, hshut', hr])
  · obtain ⟨new, hnew, hcalls⟩ := h.calls
    exact ⟨new, by rw [hnotes, hnotes', hnew], hlife ▸ hlife' ▸ hcalls⟩

theorem Moves.refl (method? : Option String) (s : Session (γ × List Note)) :
    Moves method? s s :=
  ⟨.stays rfl rfl, [], (List.append_nil _).symm, .none fun h => by simp [h]⟩

theorem Moves.of_core_eq (h : t.core = s.core) : Moves method? s t :=
  (Moves.refl method? s).of_core rfl h

/-- Performing an action for a method that an initialised session passes on. -/
theorem moves_perform_noting {call : Call} (hcall : call.isInitialise = false)
    (hs : s.lifecycle = .initialized) (method : String) (a : Action γ α) (f : α → β) :
    Moves (some method) s
      ((do let x ← perform (a.noting call); return f x : Serving _ β).after s).2 := by
  have hstate : ((do let x ← perform (a.noting call); return f x : Serving _ β).after s).2 =
      ((perform (a.noting call)).after s).2 := by
    rw [after_bind]
    cases (perform (a.noting call)).after s with
    | mk result t => cases result <;> rfl
  rw [hstate]
  exact ⟨.stays (lifecycle_perform _ s) (shutdownRequested_perform _ s), _, notes_perform call a s,
    .working hcall rfl hs⟩

/-- Parameters that are not of the expected shape are refused, and nothing else is done. -/
theorem moves_structured_bind {expected : String} {o : Option α}
    {k : α → Serving (γ × List Note) β} (h : ∀ a, Moves method? s ((k a).after s).2) :
    Moves method? s ((do let a ← structured expected o; k a : Serving _ β).after s).2 := by
  cases o with
  | none => exact .refl _ s
  | some a => exact h a

theorem moves_handleInitialise (caps : Capabilities γ) (hs : s.lifecycle = .uninitialized)
    (params : Json) :
    Moves (some Method.initialise.name) s ((handleInitialise caps.noting params).after s).2 := by
  rcases handleInitialise_cases caps.noting params s with ⟨f, h⟩ | ⟨root, folders, trace, h⟩
  · rw [h]
    exact .refl _ s
  · rw [h]
    have hlife := lifecycle_perform (caps.noting.initialise root folders
      (params.fieldOrNull "initializationOptions")) s
    have hshut := shutdownRequested_perform (caps.noting.initialise root folders
      (params.fieldOrNull "initializationOptions")) s
    have hnotes := notes_perform (.initialise root folders
        (params.fieldOrNull "initializationOptions"))
      (caps.initialise root folders (params.fieldOrNull "initializationOptions")) s
    change ((perform (caps.noting.initialise _ _ _)).after s).2.notes = _ ++ [⟨_,
      ((perform (caps.noting.initialise _ _ _)).after s).1.isOk⟩] at hnotes
    cases hperform : (perform (caps.noting.initialise root folders
        (params.fieldOrNull "initializationOptions"))).after s with
    | mk result t =>
      rw [hperform] at hlife hshut hnotes
      simp only at hlife hshut
      cases result with
      | ok id =>
        exact ⟨.initialises rfl hs rfl hshut, _, hnotes,
          .preparing rfl rfl hs ⟨fun _ => rfl, fun _ => rfl⟩⟩
      | error f =>
        refine ⟨.stays hlife hshut, _, hnotes,
          .preparing rfl rfl hs ⟨fun h => (nomatch h), fun h => ?_⟩⟩
        rw [hlife, hs] at h
        cases h

/-- A method that is neither an initialisation nor an exit is accepted by an initialised session
only. -/
theorem eq_initialized_of_admits {l : Lifecycle} (hl : l ≠ .exited) {m : Method}
    (hinit : m ≠ .initialise) (hexit : m ≠ .exit) (h : admits l m.name = true) :
    l = .initialized := by
  cases l with
  | initialized => rfl
  | exited => exact absurd rfl hl
  | uninitialized => cases m <;> first | exact absurd rfl hinit | exact absurd rfl hexit | cases h
  | shuttingDown => cases m <;> first | exact absurd rfl hexit | cases h

/-- What a method does that is accepted. -/
theorem moves_handle (caps : Capabilities γ) {m : Method} (hexited : s.lifecycle ≠ .exited)
    (hadmits : admits s.lifecycle m.name = true) (params : Json) :
    Moves (some m.name) s ((handle caps.noting m params).after s).2 := by
  have hready (hinit : m ≠ .initialise) (hexit : m ≠ .exit) : s.lifecycle = .initialized :=
    eq_initialized_of_admits hexited hinit hexit hadmits
  cases m with
  | initialise =>
    refine moves_handleInitialise caps ?_ params
    cases hl : s.lifecycle <;> simp_all [admits, Method.name]
  | initialised =>
    exact moves_perform_noting rfl (hready (by decide) (by decide)) _ caps.initialised fun _ => Json.null
  | shutdown =>
    exact ⟨.shutsDown rfl (hready (by decide) (by decide)) rfl rfl, [], (List.append_nil _).symm,
      .none fun _ h => by cases h⟩
  | exit =>
    exact ⟨.exits rfl hexited rfl rfl, [], (List.append_nil _).symm, .none fun _ h => by cases h⟩
  | setTrace =>
    show Moves _ s ((handleSetTrace params).after s).2
    unfold handleSetTrace
    split
    · split
      · exact ⟨.stays rfl rfl, [], (List.append_nil _).symm,
          .none fun h h' => by cases h.symm.trans h'⟩
      · exact .refl _ s
    · exact .refl _ s
  | cancelRequest =>
    have htell := core_tell "Ignoring $/cancelRequest" none s
    unfold handle
    rw [after_bind]
    cases h : (tell "Ignoring $/cancelRequest" none).after s with
    | mk result t =>
      rw [h] at htell
      cases result <;> exact .of_core_eq htell
  | didChangeConfiguration =>
    exact moves_perform_noting rfl (hready (by decide) (by decide)) _ (caps.changeConfiguration _)
      fun _ => Json.null
  | didOpen =>
    exact moves_structured_bind fun d => moves_perform_noting rfl (hready (by decide) (by decide)) _
      (caps.documentOpened d) fun _ => Json.null
  | didChange =>
    unfold handle
    cases Params.changed params with
    | error e => exact .refl _ s
    | ok change =>
      exact moves_perform_noting rfl (hready (by decide) (by decide)) _
        (caps.documentChanged change.1 change.2.1 change.2.2) fun _ => Json.null
  | didClose =>
    exact moves_structured_bind fun uri => moves_perform_noting rfl
      (hready (by decide) (by decide)) _ (caps.documentClosed uri) fun _ => Json.null
  | definition =>
    exact moves_structured_bind fun q => moves_perform_noting rfl (hready (by decide) (by decide)) _
      (caps.definition q.1 q.2) (listJson Location.toJson)
  | documentHighlight =>
    exact moves_structured_bind fun q => moves_perform_noting rfl (hready (by decide) (by decide)) _
      (caps.highlights q.1 q.2) (listJson Highlight.toJson)
  | references =>
    exact moves_structured_bind fun q => moves_perform_noting rfl (hready (by decide) (by decide)) _
      (caps.references q.1 q.2) (listJson Location.toJson)

/-- What a message does while it is dispatched. -/
theorem moves_dispatch (caps : Capabilities γ) (hexited : s.lifecycle ≠ .exited)
    (method : String) (params : Json) (isRequest : Bool) :
    Moves (some method) s ((dispatch caps.noting method params isRequest).after s).2 := by
  unfold dispatch
  rw [after_bind]
  rcases after_accepts method isRequest s with ⟨hadmits, haccepts⟩ | ⟨-, hdrop | ⟨e, hrefuse⟩⟩
  · simp only [haccepts, if_true]
    cases hname : Method.ofName? method with
    | some m =>
      obtain rfl := name_of_ofName? hname
      exact moves_handle caps hexited hadmits params
    | none => cases isRequest <;> exact .refl _ s
  · simp only [hdrop]
    exact .refl _ s
  · simp only [hrefuse]
    exact .refl _ s

/-- What an event does. -/
theorem moves_step (caps : Capabilities γ) (hexited : s.lifecycle ≠ .exited) (e : Event) :
    Moves (eventMethod? e) s ((step caps.noting e).after s).2 := by
  cases he : eventMethod? e with
  | none => exact .of_core_eq (core_step_unhandled caps.noting he s)
  | some method =>
    obtain ⟨v, -, -, hstep⟩ := step_handled caps.noting he
    rw [hstep]
    rcases core_process caps.noting (v.field? "id") method (paramsOf v) s with
      ⟨-, hcore⟩ | ⟨t, ht, hcore⟩
    · exact .of_core_eq hcore
    · have hlife : t.lifecycle ≠ .exited := fun h => hexited (lifecycle_eq_of_core ht ▸ h)
      exact (moves_dispatch caps hlife method (paramsOf v) (v.field? "id").isSome).of_core
        ht.symm hcore

/-- An exit is handled, unless the channel is failing. -/
theorem lifecycle_step_exit (caps : Capabilities δ) {e : Event} {s : Session δ}
    (he : eventMethod? e = some Method.exit.name) (hs : s.failing = 0) :
    ((step caps e).after s).2.lifecycle = .exited := by
  obtain ⟨v, -, -, hstep⟩ := step_handled caps he
  rw [hstep]
  rcases core_process caps (v.field? "id") Method.exit.name (paramsOf v) s with
    ⟨hfailing, -⟩ | ⟨t, -, hcore⟩
  · exact absurd hs hfailing
  · rw [lifecycle_eq_of_core hcore]
    unfold dispatch
    rw [after_bind]
    rcases after_accepts Method.exit.name (v.field? "id").isSome t with
      ⟨-, haccepts⟩ | ⟨hrefused, -⟩
    · simp only [haccepts, if_true, show Method.ofName? Method.exit.name = some .exit from rfl]
      rfl
    · cases t.lifecycle <;> cases hrefused

end Message

end Session

end LanguageServer
