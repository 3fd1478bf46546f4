import LanguageServer.Proofs.Action.Twins
import LanguageServer.Proofs.Workspace.Needs

/-!
# Settled workspaces

A compilation that ends settles a workspace, whatever was known before: it finds
something, or the documents cannot be named, or it is stopped by a path or by the engine.
Closing and evicting documents leaves it settled, and so does answering queries.

## Main definitions

* `Workspace.IsKept` — what a compilation leaves at least, also if it is stopped.
* `Workspace.IsPending` — there are documents that may have to be compiled.
* `Workspace.Resembles` — two workspaces differ only in what the latest compilation left.

## Main statements

* `Workspace.isSettled_compile` — a compilation that is not stopped settles a workspace.
* `Workspace.IsSettled.close`, `Workspace.IsSettled.collect` — closing and evicting keep it so.
* `resembles_query` — a query says nothing and leaves a workspace like the one before.
-/

namespace LanguageServer.Workspace

open Relation Toy

variable {env : Environment} {budget : Nat} {ws ws' : Workspace}
  {uris sources : Table String String}

/-! ## Same documents -/

theorem isNeeded_congr (h : SameTask ws ws') {n : String} :
    ws'.IsNeeded env sources n ↔ ws.IsNeeded env sources n := by
  unfold IsNeeded
  rw [h.store, origin_congr h.configuration h.base]

/-- What is remembered stays right if the latest program and the refused version stay. -/
theorem Remembers.congr (henv : env.IsUniform) (h : ws.Remembers env sources)
    (htask : SameTask ws ws') (hsnapshot : ws'.snapshot = ws.snapshot)
    (hversion : ws'.refusedVersion = ws.refusedVersion) : ws'.Remembers env sources where
  imports s hs n hn := by
    rw [origin_congr htask.configuration htask.base]
    exact h.imports s (hsnapshot ▸ hs) n ((isNeeded_congr htask).1 hn)
  version := by
    rw [htask.store, htask.configuration, hversion]
    exact h.version
  learns := by
    rw [htask.store, learn_congr henv htask]
    exact h.learns
  compiled := by
    rw [htask.store, hsnapshot]
    exact h.compiled

theorem IsSettled.congr (henv : env.IsUniform) (h : ws.IsSettled env) (htask : SameTask ws ws')
    (hsnapshot : ws'.snapshot = ws.snapshot) (hversion : ws'.refusedVersion = ws.refusedVersion)
    (hknows : ∀ k, ws.Knows k → ws'.Knows k) : ws'.IsSettled env where
  formed := htask.store ▸ h.formed
  current := h.current.congr henv htask hsnapshot hknows
  remembers uris sources hnames :=
    (h.remembers uris sources (htask.store ▸ hnames)).congr henv htask hsnapshot hversion

theorem IsSettled.recalls (henv : env.IsUniform) (h : ws.IsSettled env) (hrecall : Recalls ws ws') :
    ws'.IsSettled env := by
  have hknows {k : Knowledge} : ws.Knows k → ws'.Knows k := hrecall.knows
  obtain ⟨indexes, rfl, -⟩ := hrecall
  exact h.congr henv ⟨rfl, rfl, rfl⟩ rfl rfl fun _ => hknows

/-! ## Compiling -/

/-- The documents are kept in order, and the latest compilation saw no later ones; if it saw them as
they are, there are some, and they can be named. -/
structure IsKept (ws : Workspace) : Prop where
  formed : ws.store.IsFormed
  bounded : ∀ s, ws.snapshot = some s → s.generation ≤ ws.store.generation
  seen : ∀ s, ws.snapshot = some s → s.generation = ws.store.generation →
    ws.store.size ≠ 0 ∧ ∀ e, (nameDocuments .empty .empty ws.store.toList).2 ≠ .error e

/-- There are documents, kept in order, that may have to be compiled. -/
structure IsPending (ws : Workspace) : Prop extends IsKept ws where
  size : ws.store.size ≠ 0

/-- What was compiled does not depend on the settings that were taken up since. -/
theorem IsKept.configure (h : ws.IsKept) (configuration : Configuration) :
    ({ ws with configuration } : Workspace).IsKept := ⟨h.formed, h.bounded, h.seen⟩

/-- Documents that have changed since may be whatever they are. -/
theorem IsKept.newer (h : ws.IsKept) {store : DocumentStore} (hformed : store.IsFormed)
    (hnewer : ws.store.generation < store.generation) : ({ ws with store } : Workspace).IsKept where
  formed := hformed
  bounded s hs := Nat.le_of_lt (Nat.lt_of_le_of_lt (h.bounded s hs) hnewer)
  seen s hs heq := absurd heq (Nat.ne_of_lt (Nat.lt_of_le_of_lt (h.bounded s hs) hnewer))

theorem IsKept.evict (h : ws.IsKept) (garbage : List String) :
    ({ ws with store := (ws.store.evict garbage).1 } : Workspace).IsKept := by
  rcases ws.store.evict_cases garbage with heq | hgeneration
  · rw [heq]
    exact h
  · exact h.newer (h.formed.evict garbage) (by omega)

theorem IsKept.close (h : ws.IsKept) {uri : String} {store : DocumentStore}
    (hclose : ws.store.close uri = .ok store) : ({ ws with store } : Workspace).IsKept :=
  h.newer (h.formed.close hclose) (by have := DocumentStore.generation_close hclose; omega)

/-- Documents that are newer than the latest compilation have to be compiled. -/
theorem isPending_of_newer (hformed : ws.store.IsFormed) (hsize : ws.store.size ≠ 0)
    (h : ∀ s, ws.snapshot = some s → s.generation < ws.store.generation) : ws.IsPending where
  formed := hformed
  size := hsize
  bounded s hs := Nat.le_of_lt (h s hs)
  seen s hs heq := absurd heq (Nat.ne_of_lt (h s hs))

/-- Whatever is known of no documents is current. -/
theorem IsKept.isCurrent (h : ws.IsKept) (hsize : ws.store.size = 0) : ws.IsCurrent env none :=
  ⟨h.bounded, by simp, fun s hs heq _ => absurd hsize (h.seen s hs heq).1⟩

/-- A workspace without documents is settled under any root and configuration. -/
theorem IsKept.isSettled (h : ws.IsKept) (hsize : ws.store.size = 0) : ws.IsSettled env :=
  isSettled_of_size_eq_zero h.formed (h.isCurrent hsize) hsize

theorem IsSettled.isKept (h : ws.IsSettled env) : ws.IsKept where
  formed := h.formed
  bounded := h.current.bounded
  seen s hs heq := by
    obtain ⟨hsize, k, hlearn, -⟩ := h.current.known s hs heq (by simp)
    obtain ⟨sources, hnamed⟩ := named_of_learn hlearn
    exact ⟨hsize, fun e hnames =>
      absurd ((congrArg Prod.snd hnamed).symm.trans hnames) (by simp)⟩

/-- A compilation of documents that can be named says something only of the target version. -/
theorem audible_compile (env : Environment)
    (h : nameDocuments .empty .empty ws.store.toList = (uris, .ok sources)) :
    ((compile env).run ws).audible.map (·.1) =
      ws.versionRemarks (env.engines ws.compilations) ws.configuration.targetVersion := by
  have hremarks : (ws.versionRemarks (env.engines ws.compilations)
      ws.configuration.targetVersion).filter (!·.isCall) = ws.versionRemarks
        (env.engines ws.compilations) ws.configuration.targetVersion := by
    simp only [versionRemarks]
    split
    · rfl
    · split <;> rfl
  have hreads (l : List Exchange) :
      (l.map fun x => Effect.engine (.read x.outcome)).filter (!·.isCall) = [] :=
    List.filter_eq_nil_iff.2 fun e he => by
      obtain ⟨x, -, rfl⟩ := List.mem_map.1 he
      simp [Effect.isCall]
  rw [Run.map_audible, (run_compile env h).1]
  simp only [compileRemarks, h, List.filter_append, hremarks, hreads, List.append_nil]
  rfl

/-- The imports of a needed source that was compiled are those in the texts. -/
theorem importsOf_of_learn (henv : env.IsToy budget) {k : Knowledge} (hformed : ws.store.IsFormed)
    (hlearn : ws.learn env = .ok k)
    (hnames : nameDocuments .empty .empty ws.store.toList = (uris, .ok sources)) {n : String}
    (hn : ws.IsNeeded env sources n) :
    (importGraph k.program).importsOf n = (ws.origin env sources).imports n := by
  obtain ⟨sources', exchanges, g, hgathered⟩ := exists_isGathered henv hlearn
  obtain rfl : sources = sources' := by simpa [hnames] using congrArg Prod.snd hgathered.named
  obtain ⟨place, hcomplete⟩ := hgathered.isComplete
  have hcontains := contains_of_isNeeded hformed hnames hcomplete hn
  rw [hgathered.program, importsOf_bindAll]
  cases hhas : (ws.origin env sources).has n with
  | true =>
    rw [hcomplete.places.unit n (hcontains.trans hhas)]
    simp [Origin.imports, hhas]
  | false =>
    rw [(Table.contains_eq_false_iff _ _).1 (hcontains.trans hhas)]
    simp [Origin.imports, hhas]

/-- What a compilation found settles a workspace. -/
theorem isSettled_absorb (henv : env.IsToy budget) {k : Knowledge} (hformed : ws.store.IsFormed)
    (hsize : ws.store.size ≠ 0) (hlearn : ws.learn env = .ok k) (n : Nat) :
    ((ws.noteVersion (env.engines n) ws.configuration.targetVersion).absorb k).IsSettled env := by
  have htask := (sameTask_noteVersion ws (env.engines n) ws.configuration.targetVersion).trans
    (sameTask_absorb _ k)
  refine ⟨htask.store ▸ hformed, isCurrent_absorb henv.isUniform hsize hlearn
    (sameTask_noteVersion ws _ _) (by simp), fun uris sources hnames => ?_⟩
  rw [htask.store] at hnames
  exact
    { imports := fun s hs m hm => by
        obtain rfl : (⟨k.program, _⟩ : Snapshot) = s := Option.some.inj hs
        rw [isNeeded_congr htask] at hm
        rw [origin_congr htask.configuration htask.base]
        exact importsOf_of_learn henv hformed hlearn hnames hm
      version := fun _ m e haccepts => by
        rw [htask.configuration, henv.isUniform m n] at haccepts
        rw [htask.configuration]
        show (ws.noteVersion (env.engines n) ws.configuration.targetVersion).refusedVersion = _
        simp only [noteVersion, haccepts]
      learns := fun _ => ⟨k, (learn_congr henv.isUniform htask).trans hlearn⟩
      compiled := fun _ hnone => by cases hnone }

/-- A compilation settles a workspace, unless it is stopped by a path or by the engine. -/
theorem isSettled_compile (henv : env.IsToy budget) (h : ws.IsPending) :
    ((compile env).run ws).state.IsSettled env ∨
      ∃ f, ((compile env).run ws).result = .error f ∧ f.stopsCompiling = true := by
  cases hlearn : ws.learn env with
  | ok k =>
    rw [(run_compile_of_learn hlearn).2]
    exact .inl (isSettled_absorb henv h.formed h.size hlearn _)
  | error f =>
    rcases learn_eq_error hlearn with hstops | ⟨e, rfl, hnames⟩
    · exact .inr ⟨f, (run_compile_of_learn_error hlearn).1, hstops⟩
    · cases hnamed : nameDocuments .empty .empty ws.store.toList with
      | mk uris named =>
        rw [hnamed] at hnames
        obtain rfl : named = .error e := hnames
        rw [run_compile_of_unnamed env hnamed]
        refine .inl (isSettled_of_unnamed h.formed ?_ (congrArg Prod.snd hnamed))
        exact ⟨h.bounded, by simp, fun s hs heq _ =>
          absurd (congrArg Prod.snd hnamed) ((h.seen s hs heq).2 e)⟩

/-- A compilation that finds nothing leaves the documents kept. -/
theorem isKept_compile_of_learn_error (h : ws.IsKept) {f : Fault} (hlearn : ws.learn env = .error f) :
    ((compile env).run ws).state.IsKept := by
  have hkeeps : Keeps ws ((compile env).run ws).state := (discreet_compile env ws).2
  have hsnapshot := (run_compile_of_learn_error hlearn).2
  exact ⟨hkeeps.store ▸ h.formed, fun s hs => hkeeps.store ▸ h.bounded s (hsnapshot ▸ hs),
    fun s hs heq => by
      rw [hkeeps.store] at heq ⊢
      exact h.seen s (hsnapshot ▸ hs) heq⟩

/-- A compilation leaves the documents kept, also if it is stopped. -/
theorem isKept_compile (henv : env.IsToy budget) (h : ws.IsPending) :
    ((compile env).run ws).state.IsKept := by
  cases hlearn : ws.learn env with
  | ok k =>
    rw [(run_compile_of_learn hlearn).2]
    exact (isSettled_absorb henv h.formed h.size hlearn _).isKept
  | error f => exact isKept_compile_of_learn_error h.toIsKept hlearn

theorem isKept_upToDate (henv : env.IsToy budget) (h : ws.IsPending) :
    ((upToDate env).run ws).state.IsKept := by
  unfold upToDate
  rw [Action.run_bind_ok (Action.run_state ws)]
  simp only
  split
  · split
    · exact h.toIsKept
    · exact isKept_compile henv h
  · exact isKept_compile henv h

/-- What a compilation of documents that can be named remembers of a refused version. -/
theorem refusedVersion_compile (env : Environment)
    (h : nameDocuments .empty .empty ws.store.toList = (uris, .ok sources)) :
    ((compile env).run ws).state.refusedVersion =
      (ws.noteVersion (env.engines ws.compilations) ws.configuration.targetVersion).refusedVersion := by
  rw [(run_compile env h).2.2]
  cases (ws.inquire env sources).2 <;> rfl

/-! ## Closing and evicting -/

/-- Closing a document leaves a workspace settled: fewer sources are needed. -/
theorem IsSettled.close (h : ws.IsSettled env) {uri : String} {store : DocumentStore}
    (hclose : ws.store.close uri = .ok store) : ({ ws with store } : Workspace).IsSettled env := by
  have hgeneration := DocumentStore.generation_close hclose
  have hformed := h.formed.close hclose
  obtain ⟨-, rfl⟩ := DocumentStore.close_eq_ok hclose
  refine ⟨hformed, h.current.newer (by omega), fun uris sources hnames => ?_⟩
  have hremembers := h.remembers uris sources hnames
  refine ⟨fun s hs n hn => hremembers.imports s hs n ?_, hremembers.version, hremembers.learns,
    hremembers.compiled⟩
  refine hn.induct (motive := ws.IsNeeded env sources) (fun u hu m hname => ?_)
    fun a _ ha b hb => ha.import hb
  exact isNeeded_of_isOpen (List.mem_filter.1 hu).1 hname

/-- If some documents are found to be unreachable, all documents can be named. -/
theorem exists_nameDocuments_of_unreachable {store : DocumentStore}
    {reached opened garbage : List String}
    (hopened : store.openUris.mapM sourceNameFor = .ok opened)
    (hgarbage : unreachable store reached store.toList = .ok garbage) :
    ∃ uris sources, nameDocuments .empty .empty store.toList = (uris, .ok sources) := by
  refine exists_nameDocuments (fun d hd => ?_) _ _
  cases hopen : store.isOpen d.uri with
  | true =>
    obtain ⟨n, -, hname⟩ :=
      exists_name_of_mapM hopened d.uri (by simpa [DocumentStore.isOpen] using hopen)
    exact ⟨n, hname⟩
  | false => exact exists_name_of_unreachable hgarbage d hd hopen

/-- Evicting the documents that the latest program does not lead to leaves a workspace settled: they
are not needed. -/
theorem IsSettled.collect (henv : env.IsToy budget) (h : ws.IsSettled env) {s : Snapshot}
    (hs : ws.snapshot = some s) {opened garbage : List String}
    (hopened : ws.store.openUris.mapM sourceNameFor = .ok opened)
    (hgarbage : unreachable ws.store ((importGraph s.program).reach [] opened) ws.store.toList =
      .ok garbage) :
    ({ ws with store := (ws.store.evict garbage).1 } : Workspace).IsSettled env := by
  obtain ⟨uris, sources, hnames⟩ := exists_nameDocuments_of_unreachable hopened hgarbage
  have hremembers := h.remembers uris sources hnames
  have hreach := contains_reach_iff_isNeeded hremembers hs hopened
  have hleft := nameDocuments_evict h.formed hnames
    (fun uri hopen n hname => (hreach n).2 (isNeeded_of_isOpen hopen hname)) hgarbage
  refine ⟨h.formed.evict garbage, ?_, fun uris' sources' hnames' => ?_⟩
  · exact h.current.evict garbage
  · obtain ⟨-, hsources⟩ := Prod.mk.inj (hleft.symm.trans hnames')
    obtain rfl := Except.ok.inj hsources
    refine hremembers.evict henv hleft (DocumentStore.openUris_evict _ _) ?_ ⟨uris, hnames⟩ hreach
    unfold DocumentStore.size
    rw [DocumentStore.documents_evict]
    exact Table.size_restrict_le _ _

/-! ## Resemblance -/

/-- The documents, the settings, and what the client was shown and told of a refused version are the
same; something was compiled in both workspaces or in none; and both have a property. -/
structure Resembles (J : Workspace → Prop) (ws ws' : Workspace) : Prop where
  task : SameTask ws ws'
  published : ws'.published = ws.published
  refusedVersion : ws'.refusedVersion = ws.refusedVersion
  compiled : ws'.snapshot = none ↔ ws.snapshot = none
  left : J ws
  right : J ws'

namespace Resembles

variable {J J' : Workspace → Prop} {ws'' : Workspace}

theorem symm (h : Resembles J ws ws') : Resembles J ws' ws :=
  ⟨h.task.symm, h.published.symm, h.refusedVersion.symm, h.compiled.symm, h.right, h.left⟩

theorem trans (h : Resembles J ws ws') (h' : Resembles J ws' ws'') : Resembles J ws ws'' :=
  ⟨h.task.trans h'.task, h'.published.trans h.published,
    h'.refusedVersion.trans h.refusedVersion, h'.compiled.trans h.compiled, h.left, h'.right⟩

theorem imp (h : Resembles J ws ws') (hJ : ∀ ws, J ws → J' ws) : Resembles J' ws ws' :=
  ⟨h.task, h.published, h.refusedVersion, h.compiled, hJ ws h.left, hJ ws' h.right⟩

theorem refl (h : J ws) : Resembles J ws ws := ⟨.refl ws, rfl, rfl, .rfl, h, h⟩

end Resembles

/-- Using line indexes leaves a workspace like the one before. -/
theorem IsSettled.resembles_recalls (henv : env.IsUniform) (h : ws.IsSettled env)
    (hrecall : Recalls ws ws') : Resembles (IsSettled env) ws ws' := by
  have hsettled := h.recalls henv hrecall
  obtain ⟨indexes, rfl, -⟩ := hrecall
  exact ⟨⟨rfl, rfl, rfl⟩, rfl, rfl, .rfl, h, hsettled⟩

/-- Compiling the documents of a settled workspace once more says nothing and leaves it like the one
before. -/
theorem resembles_compile (henv : env.IsToy budget) (h : ws.IsSettled env)
    (hsize : ws.store.size ≠ 0) :
    ((compile env).run ws).audible = [] ∧
      Resembles (IsSettled env) ws ((compile env).run ws).state := by
  cases hnames : nameDocuments .empty .empty ws.store.toList with
  | mk uris named =>
    cases named with
    | error e =>
      rw [run_compile_of_unnamed env hnames]
      refine ⟨rfl, ⟨rfl, rfl, rfl⟩, rfl, rfl, .rfl, h, ?_⟩
      refine isSettled_of_unnamed h.formed ⟨h.current.bounded, by simp, fun s hs heq _ => ?_⟩
        (congrArg Prod.snd hnames)
      exact absurd (congrArg Prod.snd hnames) ((h.isKept.seen s hs heq).2 e)
    | ok sources =>
      have hremembers := h.remembers uris sources hnames
      obtain ⟨k, hlearn⟩ := hremembers.learns hsize
      have hsettled := isSettled_absorb henv h.formed hsize hlearn ws.compilations
      have hversion := hremembers.version hsize ws.compilations
      refine ⟨?_, ?_⟩
      · -- Nothing is said of a version that was refused before.
        have hremarks : ws.versionRemarks (env.engines ws.compilations)
            ws.configuration.targetVersion = [] := by
          simp only [versionRemarks]
          cases haccepts : (env.engines ws.compilations).accepts ws.configuration.targetVersion with
          | ok u => rfl
          | error e => simp [hversion e haccepts]
        have hsaid := audible_compile env hnames
        rw [hremarks] at hsaid
        exact List.map_eq_nil_iff.1 hsaid
      · rw [(run_compile_of_learn hlearn).2]
        refine ⟨(sameTask_noteVersion ws _ _).trans (sameTask_absorb _ k), ?_, ?_, ?_, h, hsettled⟩
        · simp only [noteVersion]
          cases (env.engines ws.compilations).accepts ws.configuration.targetVersion <;> rfl
        · simp only [noteVersion]
          cases haccepts : (env.engines ws.compilations).accepts ws.configuration.targetVersion with
          | ok u => rfl
          | error e => exact (hversion e haccepts).symm
        · exact ⟨fun hsome => absurd hsome (Option.some_ne_none _),
          fun hnone => absurd hnone (hremembers.compiled hsize)⟩

/-- An up-to-date program is got without a word, and leaves a workspace like the one before. -/
theorem resembles_upToDate (henv : env.IsToy budget) (h : ws.IsSettled env)
    (hsize : ws.store.size ≠ 0) :
    ((upToDate env).run ws).audible = [] ∧
      Resembles (IsSettled env) ws ((upToDate env).run ws).state := by
  unfold upToDate
  rw [Action.run_bind_ok (Action.run_state ws)]
  simp only [List.nil_append]
  split
  · split
    · exact ⟨rfl, .refl h⟩
    · exact resembles_compile henv h hsize
  · exact resembles_compile henv h hsize

/-- A query says nothing and leaves a settled workspace like the one before. -/
theorem resembles_query {α : Type} {answer : Program → String → Position → Action Workspace α}
    {f : View → Program → String → Position → Except Fault α}
    (hreads : ∀ program source p, Reads (answer program source p) fun v => f v program source p)
    (henv : env.IsToy budget) (h : ws.IsSettled env) (uri : String) (p : Position) :
    ((query env answer uri p).run ws).audible = [] ∧
      Resembles (IsSettled env) ws ((query env answer uri p).run ws).state := by
  cases htracked : ws.store.contains uri with
  | true =>
    obtain ⟨hsilent, hlike⟩ := resembles_upToDate henv h
      (DocumentStore.size_ne_zero_of_contains htracked)
    obtain ⟨hsaid, hrecall, -⟩ := run_query_tracked env hreads htracked p
    refine ⟨?_, hlike.trans (hlike.right.resembles_recalls henv.isUniform hrecall)⟩
    rwa [Run.audible, hsaid]
  | false =>
    rw [run_query_untracked htracked]
    exact ⟨rfl, .refl h⟩

end LanguageServer.Workspace
