import LanguageServer.Proofs.Workspace.Opening

/-!
# What is kept when a document is closed

A collection goes by the imports of the latest program.  In a settled workspace these are
the imports of the documents as they are, so what goes is exactly what no open document
leads to.

For that the documents must have names.  No document comes to be tracked but by being
opened, so they do unless opening one of them fails.

## Main definitions

* `Workspace.LeadsTo` — open documents lead to a source by the imports of a program.
* `Workspace.Retains` — the documents that a collection by a program keeps.
* `Workspace.TracksOnly` — all tracked documents have a property.

## Main statements

* `Workspace.retains_collectGarbage` — a collection keeps what open documents lead to.
* `Workspace.deed_tracksOnly` — only an opening makes documents tracked.
-/

namespace LanguageServer

theorem DocumentStore.contains_evict (s : DocumentStore) (uris : List String) (uri : String) :
    (s.evict uris).1.contains uri = ((!uris.contains uri || s.isOpen uri) && s.contains uri) := by
  show (s.evict uris).1.documents.contains uri = _
  rw [documents_evict, Table.contains_restrict]
  rfl

namespace Workspace

open Relation Toy

variable {env : Environment} {budget : Nat} {ws ws' : Workspace} {k : Knowledge}
  {uris sources : Table String String}

/-! ## What is needed -/

/-- Some open document leads to a source by the imports of a program. -/
def LeadsTo (program : Program) (store : DocumentStore) (n : String) : Prop :=
  ∃ uri ∈ store.openUris, ∃ root, sourceNameFor uri = .ok root ∧
    ReflTransGen (importGraph program).Imports root n

/-- What is needed is what open documents lead to by the imports that a compilation finds. -/
theorem isNeeded_iff_leadsTo (henv : env.IsToy budget) (hformed : ws.store.IsFormed)
    (hlearn : ws.learn env = .ok k)
    (hnames : nameDocuments .empty .empty ws.store.toList = (uris, .ok sources)) (n : String) :
    ws.IsNeeded env sources n ↔ LeadsTo k.program ws.store n := by
  have himports {m : String} (hm : ws.IsNeeded env sources m) :=
    importsOf_of_learn henv hformed hlearn hnames hm
  constructor
  · intro hn
    refine hn.induct (motive := LeadsTo k.program ws.store)
      (fun uri hopen m hname => ⟨uri, hopen, m, hname, .refl⟩) fun a ha hled b hb => ?_
    obtain ⟨uri, hopen, root, hname, hpath⟩ := hled
    refine ⟨uri, hopen, root, hname, hpath.tail ?_⟩
    show b ∈ (importGraph k.program).importsOf a
    rw [himports ha]
    exact hb
  · rintro ⟨uri, hopen, root, hname, hpath⟩
    induction hpath with
    | refl => exact isNeeded_of_isOpen hopen hname
    | tail _ himport ih => exact ih.import (himports ih ▸ himport)

/-! ## What is kept -/

/-- The documents that a collection by a program keeps: those that are open, and those closed ones whose
names open documents lead to. -/
structure Retains (program : Program) (ws ws' : Workspace) : Prop where
  opened : ws'.store.openUris = ws.store.openUris
  tracked : ∀ uri, ws'.store.contains uri = true ↔
    uri ∈ ws.store.openUris ∨
      uri ∉ ws.store.openUris ∧ ws.store.contains uri = true ∧
        ∃ n, sourceNameFor uri = .ok n ∧ LeadsTo program ws.store n

/-- A settled workspace with documents that can be named can be compiled, and a collection keeps what
open documents lead to by the imports that this finds. -/
theorem retains_collectGarbage (henv : env.IsToy budget) (h : ws.IsSettled env)
    (hnames : nameDocuments .empty .empty ws.store.toList = (uris, .ok sources))
    (hsize : ws.store.size ≠ 0) {evicted : List String}
    (hok : (collectGarbage.run ws).result = .ok evicted) :
    ∃ program, ((compile env).run ws).result = .ok program ∧
      Retains program ws (collectGarbage.run ws).state := by
  have hremembers := h.remembers uris sources hnames
  obtain ⟨s, hs⟩ := Option.ne_none_iff_exists'.1 (hremembers.compiled hsize)
  obtain ⟨k, hlearn⟩ := hremembers.learns hsize
  refine ⟨k.program, (run_compile_of_learn hlearn).1, openUris_collectGarbage ws, fun uri => ?_⟩
  cases hopened : ws.store.openUris.mapM sourceNameFor with
  | error e =>
    rw [run_collectGarbage_of_unnamed hs hopened] at hok
    cases hok
  | ok opened =>
    rw [run_collectGarbage hs hopened] at hok ⊢
    cases hgarbage : unreachable ws.store ((importGraph s.program).reach [] opened)
      ws.store.toList with
    | error e =>
      rw [hgarbage] at hok
      cases hok
    | ok garbage =>
      obtain ⟨said, published, hrun, -⟩ := run_announceEvicted (ws.store.evict garbage).2
        { ws with store := (ws.store.evict garbage).1 }
      have hreach (n : String) : ((importGraph s.program).reach [] opened).contains n = true ↔
          LeadsTo k.program ws.store n :=
        (contains_reach_iff_isNeeded hremembers hs hopened n).trans
          (isNeeded_iff_leadsTo henv h.formed hlearn hnames n)
      simp only [hrun, DocumentStore.contains_evict, Bool.and_eq_true, Bool.or_eq_true,
        Bool.not_eq_true']
      have hisOpen : ws.store.isOpen uri = true ↔ uri ∈ ws.store.openUris :=
        List.contains_iff_mem
      by_cases hopen : uri ∈ ws.store.openUris
      · simp [hisOpen.2 hopen, hopen, h.formed.tracked uri hopen]
      · rw [Bool.eq_false_iff, ne_eq, List.contains_iff_mem, mem_unreachable hgarbage]
        simp only [hisOpen, hopen, or_false, not_false_eq_true, true_and, false_or]
        refine and_comm.trans (and_congr_right fun htracked => ?_)
        obtain ⟨d, hd⟩ := Option.isSome_iff_exists.1 htracked
        have hentry := Table.mem_entries_of_find? hd
        have huri := h.formed.uri _ hentry
        obtain ⟨n, hname⟩ := exists_name_of_tracked h.formed hnames htracked
        constructor
        · intro hkept
          refine ⟨n, hname, (hreach n).1 (by_contra fun hunreached => hkept ?_)⟩
          exact ⟨d, List.mem_map_of_mem hentry, huri, Bool.eq_false_iff.2 fun hcontra =>
            hopen (hisOpen.1 hcontra), n, hname, Bool.eq_false_iff.2 hunreached⟩
        · rintro ⟨m, hm, hled⟩ ⟨-, -, -, -, m', hm', hunreached⟩
          obtain rfl := Except.ok.inj (hm.symm.trans hm')
          rw [(hreach m).2 hled] at hunreached
          cases hunreached

theorem contains_markClosed (ws : Workspace) (target uri : String) :
    (ws.markClosed target).store.contains uri = ws.store.contains uri := by
  unfold markClosed
  cases hclose : ws.store.close target with
  | error e => rfl
  | ok store => exact DocumentStore.contains_close hclose uri

/-- A document that is closed without error is tracked. -/
theorem contains_of_closeDocument {target : String}
    (h : ((closeDocument target).run ws).result = .ok ()) : ws.store.contains target = true := by
  cases htracked : ws.store.contains target with
  | true => rfl
  | false =>
    rw [run_closeDocument_of_unknown htracked] at h
    cases h

/-! ## How documents come to be tracked -/

/-- All tracked documents have URIs with a property. -/
def TracksOnly (N : String → Prop) (ws : Workspace) : Prop :=
  ∀ uri, ws.store.contains uri = true → N uri

variable {N : String → Prop} {α : Type}

theorem Discreet.tracksOnly {a : Action Workspace α} (ha : Discreet a) :
    a.Steady (fun _ => True) (TracksOnly N) := fun ws h =>
  ⟨fun entry hentry _ uri huri => h uri (((ha ws).1 entry hentry).2.store ▸ huri),
    fun uri huri => h uri ((ha ws).2.store ▸ huri)⟩

theorem validateAll_tracksOnly (env : Environment) :
    (validateAll env).Steady (fun _ => True) (TracksOnly N) :=
  .bind (discreet_compile env).tracksOnly fun _ =>
    .bind (discreet_diagnosticsByUri env _).tracksOnly fun _ => .bind .state fun _ =>
      .forAll (fun _ => .bind .state fun _ => publish_steady (fun _ _ h => h) _ _ _) _

/-- A change concerns a document that is tracked already. -/
theorem changeDocument_tracksOnly (env : Environment) (target : Json) (version : Option Int)
    (changes : List ContentChange) :
    (changeDocument env target version changes).Steady (fun _ => True) (TracksOnly N) := by
  refine .bind (requireValue_steady _ _ target) fun target => .state_bind fun ws h => ?_
  cases hedits : ws.store.applyEdits target version (changes.filterMap ContentChange.edit?) with
  | error e => exact .weaken (.stop _) fun ws' heq => heq ▸ h
  | ok store =>
    refine .andThen (J := TracksOnly N) (.update fun _ _ uri huri => ?_)
      (fun _ => validateAll_tracksOnly env) fun _ h => h
    obtain ⟨d, content, htarget, -, rfl⟩ := DocumentStore.applyEdits_eq_ok hedits
    by_cases heq : target = uri
    · subst heq
      exact h target (Option.isSome_iff_exists.2 ⟨d, htarget⟩)
    · exact h uri (by simpa [DocumentStore.contains, Table.contains, heq] using huri)

theorem changeSettings_tracksOnly (env : Environment) (settings : Json) :
    (changeSettings env settings).Steady (fun _ => True) (TracksOnly N) := by
  have happly : (applySettings env settings).Steady (fun _ => True) (TracksOnly N) :=
    .bind .state fun _ => .bind (.update fun _ h => h) fun _ => .bind (.ofExcept _ _) fun _ =>
      .forAll (fun _ => .say _) _
  refine .bind happly fun _ => .bind .state fun _ => ?_
  split
  · exact validateAll_tracksOnly env
  · exact .pure _

/-- Closing a document makes none tracked. -/
theorem closeDocument_tracksOnly (target : String) :
    (closeDocument target).Steady (fun _ => True) (TracksOnly N) :=
  closeDocument_steady (fun _ _ h => h)
    (fun ws garbage h uri huri => h uri (by
      rw [DocumentStore.contains_evict, Bool.and_eq_true] at huri
      exact huri.2))
    (fun ws _ _ hclose h uri huri => h uri (DocumentStore.contains_close hclose uri ▸ huri)) target

/-- Whether a document with a URI can be handed to an engine. -/
def IsNameable (uri : String) : Prop := ∃ n, sourceNameFor uri = .ok n

/-- When a document was opened without error, all documents have names. -/
theorem tracksOnly_openDocument (hformed : ws.store.IsFormed) {d : Params.Opened}
    (h : ((openDocument env d).run ws).result = .ok ()) :
    ((openDocument env d).run ws).state.TracksOnly IsNameable := by
  obtain ⟨ws₁, hws₁, htask, -, diagnostics, hcompiled, -⟩ := openDocument_eq_ok h
  obtain ⟨k, hlearn⟩ := exists_learn_of_compiledDiagnostics hcompiled
  obtain ⟨sources, hnames⟩ := named_of_learn hlearn
  intro uri huri
  rw [htask.store] at huri
  exact exists_name_of_tracked (hws₁ ▸ hformed.track _ _ _ _) hnames huri

/-- If all documents have names, they can be handed to an engine together. -/
theorem TracksOnly.exists_nameDocuments (hformed : ws.store.IsFormed) (h : ws.TracksOnly IsNameable) :
    ∃ uris sources, nameDocuments .empty .empty ws.store.toList = (uris, .ok sources) := by
  refine Workspace.exists_nameDocuments (fun d hd => ?_) _ _
  obtain ⟨entry, hentry, rfl⟩ := List.mem_map.1 hd
  rw [hformed.uri entry hentry]
  exact h _ ((Table.contains_iff_mem_keys _ _).2 (List.mem_map_of_mem hentry))

end Workspace

end LanguageServer
