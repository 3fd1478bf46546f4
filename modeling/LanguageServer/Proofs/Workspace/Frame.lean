import LanguageServer.Navigation
import LanguageServer.Proofs.Action.Invariant
import LanguageServer.Workspace.Garbage

/-!
# What compiling and answering leave alone

Compiling, sorting findings and answering queries change what is known from the latest
compilation, and nothing else: the documents, the settings and the record of what the
client was shown stay.  None of them publishes.

## Main definitions

* `Workspace.Keeps` — the documents, the settings and the record of what was shown are the same.
* `Workspace.Discreet` — an action that keeps these and publishes nothing.
-/

namespace LanguageServer

namespace Workspace

/-- The documents, the settings and the record of what the client was shown are the same. -/
structure Keeps (ws ws' : Workspace) : Prop where
  store : ws'.store = ws.store
  configuration : ws'.configuration = ws.configuration
  base : ws'.base = ws.base
  published : ws'.published = ws.published

theorem Keeps.refl (ws : Workspace) : Keeps ws ws := ⟨rfl, rfl, rfl, rfl⟩

theorem Keeps.trans (ws ws' ws'' : Workspace) (h : Keeps ws ws') (h' : Keeps ws' ws'') :
    Keeps ws ws'' :=
  ⟨h'.store.trans h.store, h'.configuration.trans h.configuration, h'.base.trans h.base,
    h'.published.trans h.published⟩

/-- An action that keeps the documents, the settings and the record, and publishes nothing. -/
abbrev Discreet {α : Type} (a : Action Workspace α) : Prop := a.Within Keeps Effect.IsAside

namespace Discreet

variable {α β : Type}

theorem pure (x : α) : Discreet (Pure.pure x : Action Workspace α) := Action.Within.pure Keeps.refl x

theorem state : Discreet (Action.state : Action Workspace Workspace) :=
  Action.Within.state Keeps.refl

theorem stop (e : Fault) : Discreet (Action.stop e : Action Workspace α) :=
  Action.Within.stop Keeps.refl e

theorem ofExcept {ε : Type} (fault : ε → Fault) (r : Except ε α) :
    Discreet (Action.ofExcept fault r : Action Workspace α) :=
  Action.Within.ofExcept Keeps.refl fault r

theorem say {e : Effect} (he : e.IsAside) : Discreet (Action.say e : Action Workspace Unit) :=
  Action.Within.say Keeps.refl he

theorem update {f : Workspace → Workspace} (hf : ∀ ws, Keeps ws (f ws)) :
    Discreet (Action.update f) := Action.Within.update hf

theorem bind {a : Action Workspace α} {f : α → Action Workspace β} (ha : Discreet a)
    (hf : ∀ x, Discreet (f x)) : Discreet (a >>= f) :=
  Action.Within.bind Keeps.trans ha hf

end Discreet

/-! ## Translating places -/

theorem keeps_remember (name : String) (ws : Workspace) : Keeps ws (ws.remember name) := by
  unfold remember
  split
  · exact ⟨rfl, rfl, rfl, rfl⟩
  · exact Keeps.refl ws

theorem discreet_indexOf (name : String) : Discreet (indexOf name) :=
  .bind .state fun _ => .bind (.update (keeps_remember name)) fun _ => .pure _

theorem discreet_uriOf (name : String) : Discreet (uriOf name) :=
  .bind .state fun _ => .ofExcept _ _

theorem discreet_toRange (l : SourceLocation) : Discreet (toRange l) :=
  .bind (discreet_indexOf _) fun _ => .pure _

theorem discreet_toLocation (l : SourceLocation) : Discreet (toLocation l) := by
  refine .bind (discreet_toRange l) fun range => ?_
  cases range with
  | none => exact .pure _
  | some range => exact .bind (discreet_uriOf _) fun _ => .pure _

/-! ## Compiling -/

theorem discreet_serveSource (files : FileSystem) (kind path : String) :
    Discreet (serveSource files kind path) := by
  unfold serveSource
  split
  · exact .pure _
  · refine .bind .state fun ws => ?_
    split
    · exact .pure _
    · refine .bind (.ofExcept _ _) fun outcome => .bind (.update fun ws => ?_) fun _ => .pure _
      cases outcome <;> exact ⟨rfl, rfl, rfl, rfl⟩

theorem discreet_serve (files : FileSystem) (c : Compilation) : Discreet (serve files c) := by
  induction c with
  | done program => exact .pure program
  | failed reason => exact .stop _
  | unfinished => exact .stop _
  | ask kind path next ih =>
    exact .bind (discreet_serveSource files kind path) fun outcome =>
      .bind (.say rfl) fun _ => ih outcome

theorem discreet_offerVersion (engine : Engine) (version : Option String) :
    Discreet (offerVersion engine version) := by
  unfold offerVersion
  split
  · exact .pure _
  · refine .bind .state fun ws => ?_
    split
    · exact .bind (.update fun _ => ⟨rfl, rfl, rfl, rfl⟩) fun _ =>
        .bind (.say rfl) fun _ => .pure _
    · exact .pure _

theorem discreet_compile (env : Environment) : Discreet (compile env) := by
  refine .bind .state fun ws => ?_
  refine .bind (.update fun _ => ⟨rfl, rfl, rfl, rfl⟩) fun _ => ?_
  refine .bind (.ofExcept _ _) fun sources => ?_
  refine .bind (.update fun _ => ⟨rfl, rfl, rfl, rfl⟩) fun _ => ?_
  refine .bind (.say rfl) fun _ => .bind (.say rfl) fun _ => .bind (.say rfl) fun _ => ?_
  refine .bind (discreet_offerVersion _ _) fun version => ?_
  refine .bind (discreet_serve _ _) fun program => ?_
  exact .bind (.update fun _ => ⟨rfl, rfl, rfl, rfl⟩) fun _ => .pure program

theorem discreet_upToDate (env : Environment) : Discreet (upToDate env) := by
  refine .bind .state fun ws => ?_
  split
  · split
    · exact .pure _
    · exact discreet_compile env
  · exact discreet_compile env

/-! ## Sorting findings -/

theorem discreet_toRelatedAll (l : List RelatedPlace) : Discreet (toRelatedAll l) := by
  induction l with
  | nil => exact .pure []
  | cons r rest ih =>
    exact .bind (.bind (discreet_toLocation _) fun _ => .pure _) fun _ => .bind ih fun _ => .pure _

theorem discreet_toDiagnostic (reporter : String) (f : Finding) :
    Discreet (toDiagnostic reporter f) := by
  unfold toDiagnostic
  split
  · exact .pure _
  · refine .bind (discreet_toRange _) fun range => ?_
    split
    · exact .pure _
    · exact .bind (discreet_toRelatedAll _) fun _ => .pure _

theorem discreet_sortFindings (reporter : String) (t : DiagnosticTable) (l : List Finding) :
    Discreet (sortFindings reporter t l) := by
  induction l generalizing t with
  | nil => exact .pure t
  | cons f rest ih =>
    refine .bind (discreet_toDiagnostic reporter f) fun d => ?_
    split
    · exact .bind (discreet_uriOf _) fun uri => ih _
    · exact .bind (.say rfl) fun _ => ih t

theorem discreet_diagnosticsByUri (env : Environment) (program : Program) :
    Discreet (diagnosticsByUri env program) :=
  .bind .state fun _ => discreet_sortFindings _ _ _

end Workspace

end LanguageServer
