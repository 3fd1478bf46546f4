import LanguageServer.Proofs.Workspace.Failing
import LanguageServer.Session.CompilerBacked
import LanguageServer.Session.Scripted

/-!
# Faults of the channel

A session ends when the channel to the client fails.  Capabilities do not send anything
themselves, so no action of theirs has a reason to report such a failure.  The scripted
ones and those backed by a compiler never do, whatever the engine does.

## Main definitions

* `Action.SparesChannel` — an action does not fail in the name of the channel.
* `Capabilities.SpareChannel` — no action of the capabilities does.

## Main statements

* `spareChannel_scripted`, `spareChannel_ofCompiler` — such capabilities.
-/

namespace LanguageServer

namespace Action

variable {σ α β : Type}

/-- The action does not fail in the name of the channel. -/
def SparesChannel (a : Action σ α) : Prop :=
  ∀ s reason, (a.run s).result ≠ .error (.channel reason)

/-- An action that never fails in the name of the channel fails only with other faults. -/
theorem sparesChannel_iff {a : Action σ α} :
    a.SparesChannel ↔ a.FailsWith fun f => ∀ reason, f ≠ .channel reason :=
  ⟨fun h s _ hf reason heq => h s reason (heq ▸ hf), fun h s reason hf => h s _ hf reason rfl⟩

/-- Faults that arise inside are not of the channel. -/
theorem FailsInside.sparesChannel {a : Action σ α} (ha : a.FailsInside) : a.SparesChannel :=
  fun s reason hf => absurd (ha s _ hf) (by simp [Fault.isInner])

namespace SparesChannel

theorem pure (x : α) : SparesChannel (Pure.pure x : Action σ α) := fun _ _ => nofun

theorem state : SparesChannel (Action.state : Action σ σ) := fun _ _ => nofun

theorem update (f : σ → σ) : SparesChannel (Action.update f) := fun _ _ => nofun

theorem say (e : Effect) : SparesChannel (Action.say e : Action σ Unit) := fun _ _ => nofun

theorem stop {e : Fault} (h : ∀ reason, e ≠ .channel reason) :
    SparesChannel (Action.stop e : Action σ α) := sparesChannel_iff.2 (.stop h)

theorem ofExcept {ε : Type} {fault : ε → Fault} (h : ∀ e reason, fault e ≠ .channel reason)
    (r : Except ε α) : SparesChannel (Action.ofExcept fault r : Action σ α) :=
  sparesChannel_iff.2 (.ofExcept h r)

theorem bind {a : Action σ α} {f : α → Action σ β} (ha : SparesChannel a)
    (hf : ∀ x, SparesChannel (f x)) : SparesChannel (a >>= f) :=
  sparesChannel_iff.2 (.bind (sparesChannel_iff.1 ha) fun x => sparesChannel_iff.1 (hf x))

theorem forAll {ι : Type} {f : ι → Action σ Unit} (hf : ∀ i, SparesChannel (f i)) (l : List ι) :
    SparesChannel (Action.forAll f l) :=
  sparesChannel_iff.2 (.forAll (fun i => sparesChannel_iff.1 (hf i)) l)

end SparesChannel

end Action

/-- No action of the capabilities fails in the name of the channel. -/
structure Capabilities.SpareChannel {γ : Type} (caps : Capabilities γ) : Prop where
  initialise : ∀ root folders options, (caps.initialise root folders options).SparesChannel
  initialised : caps.initialised.SparesChannel
  changeConfiguration : ∀ settings, (caps.changeConfiguration settings).SparesChannel
  documentOpened : ∀ d, (caps.documentOpened d).SparesChannel
  documentChanged : ∀ uri version changes, (caps.documentChanged uri version changes).SparesChannel
  documentClosed : ∀ uri, (caps.documentClosed uri).SparesChannel
  definition : ∀ uri p, (caps.definition uri p).SparesChannel
  references : ∀ uri p, (caps.references uri p).SparesChannel
  highlights : ∀ uri p, (caps.highlights uri p).SparesChannel

/-! ## Scripted capabilities -/

theorem sparesChannel_play (script : Script) : script.play.SparesChannel := by
  unfold Script.play
  refine .bind (.forAll (fun _ => .say _) _) fun _ => .bind (.forAll (fun _ => .say _) _) fun _ =>
    .bind (.forAll (fun _ => .say _) _) fun _ => ?_
  split
  · exact .stop nofun
  · exact .stop nofun
  · exact .pure ()

theorem sparesChannel_answer (script : Script) (call : Call) :
    (script.answer call).SparesChannel :=
  .bind (.update _) fun _ => sparesChannel_play script

/-- Scripted capabilities never fail in the name of the channel. -/
theorem spareChannel_scripted (id : ServerId) (scripts : Scripts) :
    (Capabilities.scripted id scripts).SpareChannel where
  initialise _ _ _ := .bind (sparesChannel_answer _ _) fun _ => .pure _
  initialised := sparesChannel_answer _ _
  changeConfiguration _ := sparesChannel_answer _ _
  documentOpened _ := sparesChannel_answer _ _
  documentChanged _ _ _ := sparesChannel_answer _ _
  documentClosed _ := sparesChannel_answer _ _
  definition _ _ := .bind (sparesChannel_answer _ _) fun _ => .pure _
  references _ _ := .bind (sparesChannel_answer _ _) fun _ => .pure _
  highlights _ _ := .bind (sparesChannel_answer _ _) fun _ => by
    unfold Script.encodeHighlights
    split
    · exact .pure _
    · exact .stop nofun

/-! ## Capabilities backed by a compiler -/

section Compiler

open Workspace

variable {env : Environment}

theorem sparesChannel_applySettings (settings : Json) :
    (applySettings env settings).SparesChannel :=
  .bind .state fun _ => .bind (.update _) fun _ => .bind (.ofExcept nofun _) fun _ =>
    .forAll (fun _ => .say _) _

theorem sparesChannel_rootDirectory (uri : String) : (rootDirectory env uri).SparesChannel := by
  rw [rootDirectory_eq]
  refine .bind ?_ fun path => ?_
  · split
    · exact .ofExcept nofun _
    · exact .pure _
  · cases path with
    | none => exact .stop nofun
    | some path => exact .ofExcept nofun _

theorem sparesChannel_openRoot (uri : String) : (openRoot env uri).SparesChannel := by
  refine .bind (sparesChannel_rootDirectory uri) fun base => .bind (.update _) fun _ => ?_
  split
  · exact .update _
  · exact .bind (.say _) fun _ => .update _
  · exact .stop nofun
  · exact .stop nofun

theorem sparesChannel_prepare (id : ServerId) (root : Json) (folders : List WorkspaceFolder)
    (options : Json) : (prepare env id root folders options).SparesChannel := by
  have hrest : (do applySettings env options; return id : Action Workspace ServerId).SparesChannel :=
    .bind (sparesChannel_applySettings options) fun _ => .pure id
  unfold prepare
  split
  · exact hrest
  · exact .bind (sparesChannel_openRoot _) fun _ => hrest
  · exact .bind (α := PUnit) (.stop nofun) fun _ => hrest

theorem sparesChannel_require (uri : String) : (require uri).SparesChannel := by
  refine .bind .state fun ws => ?_
  split
  · exact .pure ()
  · exact .stop nofun

theorem sparesChannel_requireValue (v : Json) : (requireValue v).SparesChannel := by
  unfold requireValue
  split
  · exact .bind (sparesChannel_require _) fun _ => .pure _
  · exact .stop nofun
  · exact .stop nofun
  · exact .stop nofun

theorem sparesChannel_changeDocument (uri : Json) (version : Option Int)
    (changes : List ContentChange) : (changeDocument env uri version changes).SparesChannel := by
  refine .bind (sparesChannel_requireValue uri) fun uri => .bind .state fun ws => ?_
  split
  · exact .bind (.update _) fun _ => failsInside_validateAll.sparesChannel
  · exact .bind (α := PUnit) (.stop nofun) fun _ => failsInside_validateAll.sparesChannel

theorem sparesChannel_closeDocument (uri : String) : (closeDocument uri).SparesChannel :=
  .bind (sparesChannel_require uri) fun _ => .bind .state fun _ => .bind (.ofExcept nofun _) fun _ =>
    .bind (.update _) fun _ =>
      .bind (.bind .state fun _ => (failsInside_publish _ _ _).sparesChannel) fun _ =>
      .bind failsInside_collectGarbage.sparesChannel fun _ => .pure _

theorem sparesChannel_changeSettings (settings : Json) :
    (changeSettings env settings).SparesChannel := by
  refine .bind (sparesChannel_applySettings settings) fun _ => .bind .state fun ws => ?_
  split
  · exact failsInside_validateAll.sparesChannel
  · exact .pure ()

theorem sparesChannel_query {α : Type} {answer : Program → String → Position → Action Workspace α}
    (h : ∀ program source p, (answer program source p).SparesChannel) (uri : String)
    (p : Position) : (query env answer uri p).SparesChannel :=
  .bind (sparesChannel_require uri) fun _ => .bind failsInside_upToDate.sparesChannel fun _ =>
    .bind (.ofExcept nofun _) fun _ => h _ _ _

/-- Capabilities backed by a compiler never fail in the name of the channel. -/
theorem spareChannel_ofCompiler (env : Environment) (id : ServerId) :
    (Capabilities.ofCompiler env id).SpareChannel where
  initialise := sparesChannel_prepare id
  initialised := .pure ()
  changeConfiguration := sparesChannel_changeSettings
  documentOpened _ := .bind (.update _) fun _ => (failsInside_validate _).sparesChannel
  documentChanged := sparesChannel_changeDocument
  documentClosed := sparesChannel_closeDocument
  definition := sparesChannel_query fun _ _ _ => (failsInside_definition _ _ _).sparesChannel
  references := sparesChannel_query fun _ _ _ => (failsInside_references _ _ _).sparesChannel
  highlights := sparesChannel_query fun _ _ _ => (failsInside_highlights _ _ _).sparesChannel

end Compiler

end LanguageServer
