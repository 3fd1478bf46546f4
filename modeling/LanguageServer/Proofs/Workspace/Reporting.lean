import LanguageServer.Proofs.Workspace.Aftermath
import LanguageServer.Proofs.Workspace.Locality

/-!
# Under which URI a source is reported

Places, occurrences and findings of a source are all reported under the one URI that is
looked up for its name.  A compilation sets the URIs of the documents before the engine
works and leaves them alone from then on, so they do not depend on how it ends.

## Main definitions

* `View.ReportsUnder` — all that lies in a source is reported under a URI.

## Main statements

* `View.mem_diagnosticsOf_sorted` — which diagnostics a document is given.
* `View.reportsUnder_of_uri` — one look-up decides how a source is reported.
* `Workspace.uris_compile` — the URIs of the documents after a compilation.
-/

namespace LanguageServer

open Workspace

namespace View

variable {v : View} {reporter uri n : String}

/-- A document is given the diagnostics that it had, and those for findings in sources with its
URI. -/
theorem mem_diagnosticsOf_sorted {l : List Finding} {t table : DiagnosticTable}
    (h : (v.sorted reporter t l).2 = .ok table) {d : Diagnostic} :
    d ∈ diagnosticsOf table uri ↔ d ∈ diagnosticsOf t uri ∨ ∃ f ∈ l, ∃ place,
      f.location = some place ∧ v.uri place.source = .ok uri ∧
        v.diagnostic? reporter f = .ok (some d) := by
  induction l generalizing t with
  | nil =>
    obtain rfl := Except.ok.inj h
    simp
  | cons f rest ih =>
    unfold sorted at h
    cases hf : v.diagnostic? reporter f with
    | error e => simp [hf] at h
    | ok found =>
      cases hlocation : f.location with
      | none =>
        simp only [hf, hlocation] at h
        rw [ih h]
        simp [hlocation]
      | some place =>
        cases found with
        | none =>
          simp only [hf] at h
          rw [ih h]
          simp [hf]
        | some d' =>
          simp only [hf, hlocation] at h
          cases huri : v.uri place.source with
          | error e => simp [huri] at h
          | ok other =>
            simp only [huri] at h
            rw [ih h, diagnosticsOf_insert]
            simp only [List.mem_cons, exists_eq_or_imp, hlocation, hf, Option.some.injEq,
              Except.ok.injEq, exists_eq_left', huri]
            -- The diagnostic for the first finding comes last in its document.
            split
            · next heq =>
              subst heq
              simp only [List.mem_append, List.mem_singleton, true_and, eq_comm (a := d), or_assoc]
            · next hne => simp only [hne, false_and, false_or]

/-- All that lies in a source is reported under a URI: places, the occurrences of declarations, and
findings. -/
structure ReportsUnder (v : View) (n uri : String) : Prop where
  name : v.uri n = .ok uri
  location : ∀ place, place.source = n → v.location? place = .ok ((v.range? place).map (⟨uri, ·⟩))
  occurrences : ∀ l, v.locate n l = .ok ((v.highlightAll l).map (uri, ·))
  diagnostics : ∀ reporter t l table, (v.sorted reporter t l).2 = .ok table →
    ∀ f ∈ l, ∀ place, f.location = some place → place.source = n →
      ∀ d, v.diagnostic? reporter f = .ok (some d) → d ∈ diagnosticsOf table uri

theorem locate_eq_of_uri (h : v.uri n = .ok uri) (l : List Occurrence) :
    v.locate n l = .ok ((v.highlightAll l).map (uri, ·)) := by
  induction l with
  | nil => rfl
  | cons o rest ih =>
    unfold highlightAll at ih ⊢
    unfold locate
    cases hrange : v.range? o.location with
    | none => simpa [hrange] using ih
    | some range =>
      simp only [h, ih, List.filterMap_cons, hrange]
      rfl

/-- How a source is reported is decided by the URI that is looked up for its name. -/
theorem reportsUnder_of_uri (h : v.uri n = .ok uri) : v.ReportsUnder n uri where
  name := h
  location place hplace := by
    unfold location?
    cases v.range? place with
    | none => rfl
    | some range =>
      simp only [hplace, h]
      rfl
  occurrences := locate_eq_of_uri h
  diagnostics _ _ _ _ hsorted f hf place hlocation hplace _ hd :=
    (mem_diagnosticsOf_sorted hsorted).2 (.inr ⟨f, hf, place, hlocation, hplace ▸ h, hd⟩)

end View

/-! ## Compilations -/

namespace Action.Within

variable {σ α κ : Type} {R R' : σ → σ → Prop} {P : Effect → Prop} {a : Action σ α}

theorem weaken (h : a.Within R P) (hR : ∀ s s', R s s' → R' s s') : a.Within R' P :=
  fun s => ⟨fun entry hentry => ((h s).1 entry hentry).imp id (hR _ _), hR _ _ (h s).2⟩

/-- Whether or not all that the action says can be delivered. -/
theorem deliver (h : a.Within R P) (s : σ) (recipient : Recipient κ) (k : κ) :
    R s ((a.run s).deliver recipient k).2.2 := by
  rcases (a.run s).deliver_cases recipient k with heq | ⟨entry, hentry, _, _, _, -, heq⟩
  · rw [heq]
    exact (h s).2
  · rw [heq]
    exact ((h s).1 entry hentry).2

end Action.Within

namespace Workspace

variable {ws : Workspace} {uris texts : Table String String}

/-- The URIs of the sources are the same. -/
def KeepsUris (ws ws' : Workspace) : Prop := ws'.uris = ws.uris

theorem KeepsUris.refl (ws : Workspace) : KeepsUris ws ws := rfl

theorem KeepsUris.trans (ws ws' ws'' : Workspace) (h : KeepsUris ws ws') (h' : KeepsUris ws' ws'') :
    KeepsUris ws ws'' := Eq.trans h' h

theorem engage_keepsUris (env : Environment) (configuration : Configuration) (n : Nat)
    (texts : Table String String) :
    (engage env configuration n texts).Within KeepsUris fun _ => True :=
  have hsay (e : Effect) : (Action.say e : Action Workspace Unit).Within KeepsUris fun _ => True :=
    .say KeepsUris.refl trivial
  .bind KeepsUris.trans (hsay _) fun _ => .bind KeepsUris.trans (hsay _) fun _ =>
    .bind KeepsUris.trans (hsay _) fun _ =>
      .bind KeepsUris.trans ((works_offerVersion _ _).weaken fun _ _ h => h.uris) fun _ =>
        .bind KeepsUris.trans ((works_serve _ _).weaken fun _ _ h => h.uris) fun _ =>
          .bind KeepsUris.trans (.update fun _ => rfl) fun _ => .pure KeepsUris.refl _

theorem uris_run_compile (env : Environment)
    (hnames : nameDocuments .empty .empty ws.store.toList = (uris, .ok texts)) :
    ((compile env).run ws).state.uris = uris := by
  rw [run_compile_named env hnames]
  exact (engage_keepsUris env ws.configuration ws.compilations texts _).2

/-- The URIs of the sources after a compilation are those of the documents, wherever it stops. -/
theorem uris_compile (env : Environment)
    (hnames : nameDocuments .empty .empty ws.store.toList = (uris, .ok texts)) {κ : Type}
    (recipient : Recipient κ) (k : κ) :
    (((compile env).run ws).deliver recipient k).2.2.uris = uris := by
  rw [run_compile_named env hnames]
  exact (engage_keepsUris env ws.configuration ws.compilations texts).deliver _ recipient k

end Workspace

end LanguageServer
