import LanguageServer.Navigation
import LanguageServer.Proofs.Action.Basic
import LanguageServer.Workspace.Diagnostics

/-!
# Views of a workspace

Translating places and answering queries read a workspace in two ways only: they look up
the line index of a source, and the URI of a source.  These two look-ups are a view.  What
queries and findings become is a function of a view; the workspace changes only in which
line indexes it keeps, and that changes no view.  Findings are treated here.

## Main definitions

* `View`, `Workspace.view` — the two look-ups.
* `Workspace.Recalls` — only the kept indexes differ, and none of them in a look-up.
* `Reads` — an action says nothing and yields a function of the view.
* `View.sorted` — what findings become.

## Main statements

* `run_sortFindings` — the action yields this function.
-/

namespace LanguageServer

/-- How the sources of a compilation are looked up. -/
structure View where
  index : String → Option LineIndex
  uri : String → Except Fault String

namespace Workspace

/-- The view that a workspace gives. -/
def view (ws : Workspace) : View where
  index := ws.lineIndex?
  uri name :=
    match ws.uriFor name with
    | .ok uri => .ok uri
    | .error e => .error (.uri e)

/-- Only the kept indexes differ, and no look-up. -/
def Recalls (ws ws' : Workspace) : Prop :=
  ∃ indexes, ws' = { ws with indexes } ∧ ws'.lineIndex? = ws.lineIndex?

theorem Recalls.refl (ws : Workspace) : Recalls ws ws := ⟨ws.indexes, rfl, rfl⟩

theorem Recalls.trans {ws ws' ws'' : Workspace} (h : Recalls ws ws') (h' : Recalls ws' ws'') :
    Recalls ws ws'' := by
  obtain ⟨indexes, rfl, hindex⟩ := h
  obtain ⟨indexes', rfl, hindex'⟩ := h'
  exact ⟨indexes', rfl, hindex'.trans hindex⟩

theorem Recalls.view_eq {ws ws' : Workspace} (h : Recalls ws ws') : ws'.view = ws.view := by
  obtain ⟨indexes, rfl, hindex⟩ := h
  simp only [Workspace.view, hindex]
  rfl

theorem recalls_remember (ws : Workspace) (name : String) : Recalls ws (ws.remember name) := by
  have hindex : (ws.remember name).lineIndex? = ws.lineIndex? :=
    funext fun other => lineIndex?_remember ws name other
  unfold remember at hindex ⊢
  split
  · next index h => exact ⟨ws.indexes.insert name index, rfl, by simpa [h] using hindex⟩
  · exact Recalls.refl ws

end Workspace

/-! ## Actions that read a view -/

/-- The action says nothing, yields a function of the view, and leaves the view as it was. -/
def Reads {α : Type} (a : Action Workspace α) (f : View → Except Fault α) : Prop :=
  ∀ ws, ∃ ws', a.run ws = ⟨[], f ws.view, ws'⟩ ∧ ws.Recalls ws'

namespace Reads

variable {α β : Type}

theorem pure (x : α) : Reads (Pure.pure x) fun _ => .ok x :=
  fun ws => ⟨ws, rfl, .refl ws⟩

theorem ofExcept {ε : Type} (fault : ε → Fault) (r : Except ε α) :
    Reads (Action.ofExcept fault r) fun _ => r.mapError fault := by
  intro ws
  cases r <;> exact ⟨ws, rfl, .refl ws⟩

theorem bind {a : Action Workspace α} {f : View → Except Fault α} {g : α → Action Workspace β}
    {h : α → View → Except Fault β} (ha : Reads a f) (hg : ∀ x, Reads (g x) (h x)) :
    Reads (a >>= g) fun v => f v >>= fun x => h x v := by
  intro ws
  obtain ⟨ws', hrun, hrecall⟩ := ha ws
  cases hf : f ws.view with
  | error e =>
    rw [hf] at hrun
    refine ⟨ws', ?_, hrecall⟩
    rw [Action.run_bind_error hrun]
    simp only [hf]
    rfl
  | ok x =>
    rw [hf] at hrun
    obtain ⟨ws'', hrun', hrecall'⟩ := hg x ws'
    refine ⟨ws'', ?_, hrecall.trans hrecall'⟩
    rw [Action.run_bind_ok hrun, hrun', hrecall.view_eq]
    simp only [hf]
    rfl

/-- Actions that read the same function of the view are interchangeable. -/
theorem congr {a : Action Workspace α} {f f' : View → Except Fault α} (h : Reads a f)
    (hf : ∀ v, f v = f' v) : Reads a f' := by
  have : f = f' := funext hf
  exact this ▸ h

/-- What an action yields that reads a view. -/
theorem result_eq {a : Action Workspace α} {f : View → Except Fault α} (h : Reads a f)
    (ws : Workspace) : (a.run ws).result = f ws.view := by
  obtain ⟨ws', hrun, -⟩ := h ws
  rw [hrun]

end Reads

/-! ## Translating places -/

namespace View

/-- The range of a place, if its source is known. -/
def range? (v : View) (l : SourceLocation) : Option Range :=
  (v.index l.source).map fun index => index.rangeOf l.start l.stop

/-- The place in a document, if its source is known. -/
def location? (v : View) (l : SourceLocation) : Except Fault (Option Location) :=
  match v.range? l with
  | none => .ok none
  | some range => (v.uri l.source).map fun uri => some ⟨uri, range⟩

end View

open Workspace

theorem reads_indexOf (name : String) : Reads (indexOf name) fun v => .ok (v.index name) :=
  fun ws => ⟨_, run_indexOf name ws, recalls_remember ws name⟩

theorem reads_uriOf (name : String) : Reads (uriOf name) fun v => v.uri name := by
  intro ws
  refine ⟨ws, ?_, .refl ws⟩
  have hrun : (uriOf name).run ws = (Action.ofExcept Fault.uri (ws.uriFor name)).run ws := rfl
  rw [hrun]
  unfold Workspace.view
  cases h : ws.uriFor name <;> simp only [h] <;> rfl

theorem reads_toRange (l : SourceLocation) : Reads (toRange l) fun v => .ok (v.range? l) :=
  (reads_indexOf l.source).bind fun _ => .pure _

theorem reads_toLocation (l : SourceLocation) : Reads (toLocation l) fun v => v.location? l := by
  refine ((reads_toRange l).bind (h := fun range v =>
    match range with
    | none => .ok none
    | some range => (v.uri l.source).map fun uri => some ⟨uri, range⟩) fun range => ?_).congr
    fun v => rfl
  cases range with
  | none => exact .pure none
  | some range =>
    have hread := (reads_uriOf l.source).bind fun uri => Reads.pure (some (Location.mk uri range))
    refine hread.congr fun v => ?_
    cases v.uri l.source <;> rfl

/-! ## Findings -/

namespace View

/-- The places that belong to a diagnostic, without those in unknown sources. -/
def relatedAll (v : View) : List RelatedPlace → Except Fault (List RelatedLocation)
  | [] => .ok []
  | r :: rest => do
    let location ← v.location? r.location
    let others ← v.relatedAll rest
    return (location.map fun location => ⟨location, r.message⟩).toList ++ others

/-- The diagnostic for a finding, if it lies in a known source. -/
def diagnostic? (v : View) (reporter : String) (f : Finding) : Except Fault (Option Diagnostic) :=
  match f.location with
  | none => .ok none
  | some location =>
    match v.range? location with
    | none => .ok none
    | some range => do
      let related ← v.relatedAll f.related
      return some
        { range, message := f.message, severity := some f.severity, code := f.code
          source := some reporter, flags := f.flags, related }

end View

theorem reads_toRelatedAll (l : List RelatedPlace) :
    Reads (toRelatedAll l) fun v => v.relatedAll l := by
  induction l with
  | nil => exact .pure []
  | cons r rest ih =>
    have hread := ((reads_toLocation r.location).bind fun location =>
      Reads.pure (location.map fun location => RelatedLocation.mk location r.message)).bind
        fun related => ih.bind fun others => Reads.pure (related.toList ++ others)
    refine hread.congr fun v => ?_
    simp only [View.relatedAll]
    cases v.location? r.location <;> rfl

theorem reads_toDiagnostic (reporter : String) (f : Finding) :
    Reads (toDiagnostic reporter f) fun v => v.diagnostic? reporter f := by
  cases hf : f.location with
  | none =>
    simp only [toDiagnostic, View.diagnostic?, hf]
    exact .pure none
  | some location =>
    simp only [toDiagnostic, View.diagnostic?, hf]
    refine ((reads_toRange location).bind (h := fun range v =>
      match range with
      | none => .ok none
      | some range => do
        let related ← v.relatedAll f.related
        return some
          { range, message := f.message, severity := some f.severity, code := f.code
            source := some reporter, flags := f.flags, related }) fun range => ?_).congr
      fun v => ?_
    · cases range with
      | none => exact .pure none
      | some range => exact (reads_toRelatedAll f.related).bind fun _ => .pure _
    · cases hrange : v.range? location <;> simp only <;> rfl

namespace View

/-- What is logged while findings are sorted, and the diagnostics by document. -/
def sorted (v : View) (reporter : String) (t : DiagnosticTable) :
    List Finding → List Effect × Except Fault DiagnosticTable
  | [] => ([], .ok t)
  | f :: rest =>
    match v.diagnostic? reporter f, f.location with
    | .error e, _ => ([], .error e)
    | .ok (some d), some location =>
      match v.uri location.source with
      | .error e => ([], .error e)
      | .ok uri => v.sorted reporter (t.insert uri (diagnosticsOf t uri ++ [d])) rest
    | .ok _, _ =>
      let r := v.sorted reporter t rest
      (.log (levelOf f.severity) (f.severity.word ++ ": " ++ f.message) :: r.1, r.2)

end View

/-- Sorting findings only looks places up. -/
theorem run_sortFindings (reporter : String) (t : DiagnosticTable) (l : List Finding)
    (ws : Workspace) :
    ((sortFindings reporter t l).run ws).said.map (·.1) = (ws.view.sorted reporter t l).1 ∧
      ((sortFindings reporter t l).run ws).result = (ws.view.sorted reporter t l).2 ∧
      Recalls ws ((sortFindings reporter t l).run ws).state := by
  induction l generalizing t ws with
  | nil => exact ⟨rfl, rfl, .refl ws⟩
  | cons f rest ih =>
    unfold sortFindings View.sorted
    obtain ⟨ws', hrun, hrecall⟩ := reads_toDiagnostic reporter f ws
    simp only at hrun
    have hview := hrecall.view_eq
    have hlogged := ih t ws'
    cases hd : ws.view.diagnostic? reporter f with
    | error e =>
      rw [hd] at hrun
      rw [Action.run_bind_error hrun]
      exact ⟨rfl, rfl, hrecall⟩
    | ok d =>
      rw [hd] at hrun
      rw [Action.run_bind_ok hrun]
      rw [hview] at hlogged
      obtain ⟨hsaid, hresult, hend⟩ := hlogged
      cases d with
      | none => exact ⟨congrArg (_ :: ·) hsaid, hresult, hrecall.trans hend⟩
      | some d =>
        cases hl : f.location with
        | none => exact ⟨congrArg (_ :: ·) hsaid, hresult, hrecall.trans hend⟩
        | some location =>
          obtain ⟨ws'', huri, hrecall'⟩ := reads_uriOf location.source ws'
          simp only [hview] at huri
          simp only
          cases hu : ws.view.uri location.source with
          | error e =>
            rw [hu] at huri
            rw [Action.run_bind_error huri]
            exact ⟨rfl, rfl, hrecall.trans hrecall'⟩
          | ok uri =>
            rw [hu] at huri
            rw [Action.run_bind_ok huri]
            obtain ⟨hsaid, hresult, hend⟩ := ih (t.insert uri (diagnosticsOf t uri ++ [d])) ws''
            rw [(hrecall.trans hrecall').view_eq] at hsaid hresult
            exact ⟨hsaid, hresult, (hrecall.trans hrecall').trans hend⟩

end LanguageServer
