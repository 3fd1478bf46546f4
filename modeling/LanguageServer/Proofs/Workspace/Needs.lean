import LanguageServer.Proofs.Workspace.Freshness
import LanguageServer.Proofs.Workspace.Gathered
import LanguageServer.Proofs.Workspace.Reach

/-!
# What open documents need

An open document needs the sources that it leads to, and these are the same whether they
are read off the latest program or off the texts: the latest program may be older than
the last closings and evictions, but none of them changes what is needed.  So an eviction
forgets exactly what no open document needs, and afterwards everything can be compiled as
before.

## Main definitions

* `Workspace.IsNeeded` — an open document leads to a source.
* `Workspace.Remembers` — what the latest compilation left is still right.
* `Workspace.IsSettled` — a workspace that is formed and current and remembers.

## Main statements

* `Workspace.mem_reach_iff_isNeeded` — the latest program leads to what is needed.
* `Workspace.IsSettled.evict` — an eviction leaves a workspace settled.
-/

namespace LanguageServer.Workspace

open Relation Toy

variable {env : Environment} {budget : Nat} {ws ws' : Workspace}
  {uris sources : Table String String}

/-! ## Needs -/

/-- An open document leads to a source by the imports in the texts. -/
def IsNeeded (env : Environment) (ws : Workspace) (sources : Table String String) (n : String) :
    Prop :=
  ∃ uri ∈ ws.store.openUris, ∃ m, sourceNameFor uri = .ok m ∧
    ReflTransGen (fun a b => b ∈ (ws.origin env sources).imports a) m n

theorem isNeeded_of_isOpen {uri n : String} (hopen : uri ∈ ws.store.openUris)
    (hname : sourceNameFor uri = .ok n) : ws.IsNeeded env sources n :=
  ⟨uri, hopen, n, hname, .refl⟩

theorem IsNeeded.import {n m : String} (h : ws.IsNeeded env sources n)
    (hm : m ∈ (ws.origin env sources).imports n) : ws.IsNeeded env sources m := by
  obtain ⟨uri, hopen, m', hname, hpath⟩ := h
  exact ⟨uri, hopen, m', hname, hpath.tail hm⟩

/-- What holds of the names of open documents and of all imports is true of what is needed. -/
theorem IsNeeded.induct {motive : String → Prop} {n : String} (h : ws.IsNeeded env sources n)
    (opened : ∀ uri ∈ ws.store.openUris, ∀ m, sourceNameFor uri = .ok m → motive m)
    (imported : ∀ a, ws.IsNeeded env sources a → motive a →
      ∀ b ∈ (ws.origin env sources).imports a, motive b) : motive n := by
  obtain ⟨uri, hopen, m, hname, hpath⟩ := h
  induction hpath with
  | refl => exact opened uri hopen m hname
  | tail hpath himport ih => exact imported _ ⟨uri, hopen, m, hname, hpath⟩ ih _ himport

/-- A needed source is compiled exactly if it exists. -/
theorem contains_of_isNeeded (hformed : ws.store.IsFormed)
    (hnames : nameDocuments .empty .empty ws.store.toList = (uris, .ok sources))
    {place : String → Int} {exchanges : List Exchange} {g : Gathering}
    (hcomplete : Gathering.IsComplete (ws.origin env sources) place exchanges g) {n : String}
    (h : ws.IsNeeded env sources n) :
    g.units.contains n = (ws.origin env sources).has n := by
  refine h.induct (motive := fun n => g.units.contains n = (ws.origin env sources).has n)
    (fun uri hopen m hname => ?_) fun a _ ha b hb => ?_
  · obtain ⟨d, hd⟩ := Option.isSome_iff_exists.1 (hformed.tracked uri hopen)
    have hentry := Table.mem_entries_of_find? hd
    have hsource : sources.contains m = true :=
      (contains_texts_iff hnames m).2 (.inr ⟨d, List.mem_map_of_mem hentry, by
        rw [hformed.uri _ hentry]
        exact hname⟩)
    have hunit := hcomplete.contains_of_source hsource
    rw [hunit, hcomplete.follows.has (hcomplete.follows.units m hunit)]
  · exact hcomplete.contains_of_import (ha.trans (Origin.has_of_mem_imports hb)) hb

/-! ## What is remembered -/

/-- What the latest compilation left is still right for documents with certain texts: the imports of
needed sources, and the refused target version; and if there are documents, compiling them finds
something, and did so before. -/
structure Remembers (env : Environment) (ws : Workspace) (sources : Table String String) : Prop where
  imports : ∀ s, ws.snapshot = some s → ∀ n, ws.IsNeeded env sources n →
    (importGraph s.program).importsOf n = (ws.origin env sources).imports n
  version : ws.store.size ≠ 0 →
    ∀ n e, (env.engines n).accepts ws.configuration.targetVersion = .error e →
      ws.refusedVersion = ws.configuration.targetVersion
  learns : ws.store.size ≠ 0 → ∃ k, ws.learn env = .ok k
  compiled : ws.store.size ≠ 0 → ws.snapshot ≠ none

/-- The documents are kept in order, what is known is current, and if the documents can be named,
the workspace remembers what it needs. -/
structure IsSettled (env : Environment) (ws : Workspace) : Prop where
  formed : ws.store.IsFormed
  current : ws.IsCurrent env none
  remembers : ∀ uris sources,
    nameDocuments .empty .empty ws.store.toList = (uris, .ok sources) → ws.Remembers env sources

/-- A workspace without documents has nothing to remember. -/
theorem isSettled_of_size_eq_zero (hformed : ws.store.IsFormed) (hcurrent : ws.IsCurrent env none)
    (hsize : ws.store.size = 0) : ws.IsSettled env where
  formed := hformed
  current := hcurrent
  remembers uris sources _ :=
    { imports := fun s _ n hn => by
        obtain ⟨uri, hopen, -⟩ := hn
        rw [hformed.openUris_eq_nil hsize] at hopen
        cases hopen
      version := fun h => absurd hsize h
      learns := fun h => absurd hsize h
      compiled := fun h => absurd hsize h }

theorem isSettled_empty : Workspace.empty.IsSettled env :=
  isSettled_of_size_eq_zero DocumentStore.isFormed_empty isCurrent_empty rfl

/-- A workspace whose documents cannot be named has nothing to remember. -/
theorem isSettled_of_unnamed {e : Uri.UriError} (hformed : ws.store.IsFormed)
    (hcurrent : ws.IsCurrent env none)
    (h : (nameDocuments .empty .empty ws.store.toList).2 = .error e) : ws.IsSettled env where
  formed := hformed
  current := hcurrent
  remembers uris sources hnames := by
    rw [hnames] at h
    cases h

/-! ## What is reached -/

/-- The latest program leads to what is needed. -/
theorem mem_reach_iff_isNeeded (h : ws.Remembers env sources) {s : Snapshot}
    (hs : ws.snapshot = some s) {opened : List String}
    (hopened : ws.store.openUris.mapM sourceNameFor = .ok opened) (n : String) :
    n ∈ (importGraph s.program).reach [] opened ↔ ws.IsNeeded env sources n := by
  rw [ImportGraph.mem_reach_iff]
  constructor
  · rintro ⟨m, hm, hpath⟩
    induction hpath with
    | refl =>
      obtain ⟨uri, hopen, hname⟩ := (mem_mapM_sourceNameFor hopened m).1 hm
      exact isNeeded_of_isOpen hopen hname
    | tail _ himport ih => exact ih.import (h.imports s hs _ ih ▸ himport)
  · intro hn
    refine hn.induct (motive := fun n => ∃ m ∈ opened, ReflTransGen _ m n)
      (fun uri hopen m hname => ⟨m, (mem_mapM_sourceNameFor hopened m).2 ⟨uri, hopen, hname⟩, .refl⟩)
      ?_
    rintro a ha ⟨m, hm, hpath⟩ b hb
    have himport : b ∈ (importGraph s.program).importsOf a := by
      rw [h.imports s hs a ha]
      exact hb
    exact ⟨m, hm, hpath.tail himport⟩

theorem contains_reach_iff_isNeeded (h : ws.Remembers env sources) {s : Snapshot}
    (hs : ws.snapshot = some s) {opened : List String}
    (hopened : ws.store.openUris.mapM sourceNameFor = .ok opened) (n : String) :
    ((importGraph s.program).reach [] opened).contains n = true ↔ ws.IsNeeded env sources n :=
  List.contains_iff_mem.trans (mem_reach_iff_isNeeded h hs hopened n)

/-! ## Evictions -/

section Evict

variable {store : DocumentStore} {p : String → Bool}

/-- What is left of the documents agrees with what was there on all that is needed. -/
theorem agrees_restrict (store : DocumentStore) (hp : ∀ n, p n = true ↔ ws.IsNeeded env sources n) :
    (ws.origin env sources).Agrees (ws.IsNeeded env sources)
      (({ ws with store } : Workspace).origin env (sources.restrict p)) where
  rules := rfl
  sources n hn := by
    show (sources.restrict p).find? n = sources.find? n
    simp [(hp n).2 hn]
  answer n hn := by
    show answer env.files { ws with store } (sources.restrict p) sourceKind n =
      answer env.files ws sources sourceKind n
    have hfind : (sources.restrict p).find? n = sources.find? n := by simp [(hp n).2 hn]
    have hsame : answer env.files { ws with store } (sources.restrict p) =
        answer env.files ws (sources.restrict p) := answer_congr env.files rfl rfl _
    rw [hsame]
    unfold answer
    rw [hfind]
  closed n hn m hm := hn.import hm

/-- An eviction of what is not needed does not change what is needed. -/
theorem isNeeded_restrict_iff (hopen : store.openUris = ws.store.openUris)
    (hp : ∀ n, p n = true ↔ ws.IsNeeded env sources n) (n : String) :
    ({ ws with store } : Workspace).IsNeeded env (sources.restrict p) n ↔
      ws.IsNeeded env sources n := by
  have hagrees := agrees_restrict store hp
  constructor
  · intro h
    refine h.induct (motive := ws.IsNeeded env sources) (fun uri huri m hname => ?_)
      fun a _ ha b hb => ?_
    · exact isNeeded_of_isOpen (hopen ▸ huri) hname
    · rw [hagrees.imports ha] at hb
      exact ha.import hb
  · intro h
    refine h.induct (motive := ({ ws with store } : Workspace).IsNeeded env (sources.restrict p))
      (fun uri huri m hname => ?_) fun a ha ha' b hb => ?_
    · exact isNeeded_of_isOpen (show uri ∈ store.openUris from hopen ▸ huri) hname
    · rw [← hagrees.imports ha] at hb
      exact ha'.import hb

/-- A workspace remembers after what is not needed was evicted. -/
theorem Remembers.evict (henv : env.IsToy budget) (h : ws.Remembers env sources)
    (hnames : nameDocuments .empty .empty store.toList = (uris, .ok (sources.restrict p)))
    (hopen : store.openUris = ws.store.openUris) (hsize : store.size ≤ ws.store.size)
    (hnamed : ∃ uris, nameDocuments .empty .empty ws.store.toList = (uris, .ok sources))
    (hp : ∀ n, p n = true ↔ ws.IsNeeded env sources n) :
    ({ ws with store } : Workspace).Remembers env (sources.restrict p) where
  imports s hs n hn := by
    have hagrees := agrees_restrict store hp
    have hneeded := (isNeeded_restrict_iff hopen hp n).1 hn
    rw [h.imports s hs n hneeded, hagrees.imports hneeded]
  version hne := h.version fun hzero => hne (Nat.le_zero.1 (hzero ▸ hsize))
  learns hne := by
    obtain ⟨k, hlearn⟩ := h.learns fun hzero => hne (Nat.le_zero.1 (hzero ▸ hsize))
    obtain ⟨sources', exchanges, g, hgathered⟩ := exists_isGathered henv hlearn
    obtain ⟨uris', hnamed⟩ := hnamed
    obtain rfl : sources = sources' := by simpa [hnamed] using congrArg Prod.snd hgathered.named
    obtain ⟨n, hn, hgathers⟩ := hgathered.gathers
    have hkept : ∀ n, (sources.restrict p).contains n = true → ws.IsNeeded env sources n := by
      intro n hn
      cases hpn : p n with
      | true => exact (hp n).1 hpn
      | false => simp [Table.contains, hpn] at hn
    have hlength : (sources.restrict p).keys.length ≤ sources.keys.length := by
      rw [Table.keys_restrict]
      exact List.length_filter_le _ _
    obtain ⟨m, hm, exchanges', g', hgathers'⟩ := Gathering.exists_gathers_of_agrees
      (agrees_restrict store hp) hkept hlength hgathers
    exact exists_learn henv hnames (Nat.le_trans hm hn) hgathers'
  compiled hne := h.compiled fun hzero => hne (Nat.le_zero.1 (hzero ▸ hsize))

end Evict

end LanguageServer.Workspace
