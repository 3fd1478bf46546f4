import LanguageServer.Proofs.Toy.Outline
import LanguageServer.Proofs.Toy.Restriction
import LanguageServer.Proofs.Workspace.Knowledge
import LanguageServer.Proofs.Workspace.Naming

/-!
# What the toy engine gathers from a workspace

The toy engine compiles what it gathers, starting from the documents; and it finds
something exactly if it can gather all within its budget.

## Main definitions

* `Environment.IsToy` — all engines are the toy engine.
* `Workspace.origin` — where the sources of a compilation come from.
* `Workspace.IsGathered` — what a compilation found was gathered.

## Main statements

* `Workspace.exists_isGathered`, `Workspace.exists_learn` — compiling is gathering.
* `Workspace.exists_isGathered_of_compile` — what a compilation leaves behind.
-/

namespace LanguageServer

open Toy

/-- All engines are the toy engine with a budget. -/
def Environment.IsToy (env : Environment) (budget : Nat) : Prop :=
  ∀ n, env.engines n = Toy.engine budget

theorem Environment.IsToy.isUniform {env : Environment} {budget : Nat} (h : env.IsToy budget) :
    env.IsUniform := fun m n => (h m).trans (h n).symm

namespace Workspace

/-- Where the sources of a compilation come from, if the engine is handed some texts. -/
def origin (env : Environment) (ws : Workspace) (sources : Table String String) : Origin :=
  ⟨sources, ws.configuration.remappings, ws.answer env.files sources⟩

variable {env : Environment} {budget : Nat} {ws ws' : Workspace}
  {sources : Table String String}

theorem origin_congr (hconfiguration : ws'.configuration = ws.configuration)
    (hbase : ws'.base = ws.base) (sources : Table String String) :
    ws'.origin env sources = ws.origin env sources := by
  unfold origin
  rw [answer_congr env.files hconfiguration hbase, hconfiguration]

/-- What a compilation found was gathered from the documents. -/
structure IsGathered (env : Environment) (budget : Nat) (ws : Workspace) (k : Knowledge)
    (sources : Table String String) (exchanges : List Exchange) (g : Gathering) : Prop where
  named : nameDocuments .empty .empty ws.store.toList = (k.uris, .ok sources)
  gathers : ∃ n ≤ budget,
    Gathering.Gathers (ws.origin env sources) n (.start sources) exchanges g
  program : k.program = bindAll g
  texts : k.sources = (readTextsOf sources .empty exchanges).entries.foldl
    (fun t e => t.insert e.1 e.2) sources
  readFailures : k.readFailures = readFailuresOf sources .empty exchanges

/-- What the toy engine makes of some texts is bound from what it gathered. -/
theorem inquire_eq_ok_iff (henv : env.IsToy budget) {exchanges : List Exchange}
    {program : Program} :
    ws.inquire env sources = (exchanges, .ok program) ↔
      ∃ g, program = bindAll g ∧ ∃ n ≤ budget,
        Gathering.Gathers (ws.origin env sources) n (.start sources) exchanges g := by
  unfold inquire
  rw [henv]
  exact Gathering.converse_compile_eq_ok_iff

theorem exists_isGathered (henv : env.IsToy budget) {k : Knowledge} (h : ws.learn env = .ok k) :
    ∃ sources exchanges g, IsGathered env budget ws k sources exchanges g := by
  unfold learn at h
  split at h
  · cases h
  · next uris sources hnames =>
    cases hinquire : ws.inquire env sources with
    | mk exchanges result =>
      cases result with
      | error e => simp [hinquire, Except.map] at h
      | ok program =>
        simp only [hinquire, Except.map, Except.ok.injEq] at h
        subst h
        obtain ⟨g, rfl, hgathers⟩ := (inquire_eq_ok_iff henv).1 hinquire
        exact ⟨sources, exchanges, g, hnames, hgathers, rfl, rfl, rfl⟩

/-- A compilation finds something if all can be gathered within the budget. -/
theorem exists_learn (henv : env.IsToy budget) {uris : Table String String}
    (hnames : nameDocuments .empty .empty ws.store.toList = (uris, .ok sources)) {n : Nat}
    (hn : n ≤ budget) {exchanges : List Exchange} {g : Gathering}
    (h : Gathering.Gathers (ws.origin env sources) n (.start sources) exchanges g) :
    ∃ k, ws.learn env = .ok k := by
  have hinquire := (inquire_eq_ok_iff henv).2 ⟨g, rfl, n, hn, h⟩
  unfold learn
  rw [hnames]
  simp [hinquire, Except.map]

/-- What a compilation with the toy engine leaves behind was gathered. -/
theorem exists_isGathered_of_compile (henv : env.IsToy budget) {program : Program}
    {said : List (Effect × Workspace)}
    (h : (compile env).run ws = ⟨said, .ok program, ws'⟩) :
    ∃ k sources exchanges g, IsGathered env budget ws k sources exchanges g ∧
      k.program = program ∧ ws'.Knows k ∧ ws'.sources = k.sources := by
  cases hlearn : ws.learn env with
  | error f =>
    have hresult := (run_compile_of_learn_error hlearn).1
    rw [h] at hresult
    cases hresult
  | ok k =>
    obtain ⟨hresult, hstate⟩ := run_compile_of_learn hlearn
    rw [h] at hresult hstate
    obtain rfl : ws' = _ := hstate
    obtain ⟨sources, exchanges, g, hgathered⟩ := exists_isGathered henv hlearn
    exact ⟨k, sources, exchanges, g, hgathered, (Except.ok.inj hresult).symm, knows_absorb _ k, rfl⟩

/-- What was gathered is complete. -/
theorem IsGathered.isComplete {k : Knowledge} {exchanges : List Exchange} {g : Gathering}
    (h : IsGathered env budget ws k sources exchanges g) :
    ∃ place, Gathering.IsComplete (ws.origin env sources) place exchanges g := by
  obtain ⟨n, -, hgathers⟩ := h.gathers
  simpa using hgathers.isComplete (.start _) (.empty _)

end Workspace

end LanguageServer
