import LanguageServer.Proofs.Workspace.Freshness

/-!
# Preparing a workspace

To prepare a workspace touches its root and its configuration only, and says nothing but
errors.  What fails before the root is taken up leaves no trace.  Behind that, only a
configuration file without text or a path that no file can have makes it fail, and then the
root and perhaps some settings stay.  A root that is named replaces both, so what was there
before does not matter then.

## Main definitions

* `Fault.isLate` — the faults of a preparation that has taken up its root.
* `Workspace.IsPreparation` — what preparing a workspace comes to.

## Main statements

* `Workspace.openRoot_cases` — how taking up a root ends, whatever the workspace.
* `Workspace.isPreparation_prepare` — a preparation that fails early leaves no trace.
* `Workspace.run_prepare_named` — under a root, what was there before does not matter.
-/

namespace LanguageServer

/-- Whether a preparation that fails in this way may have taken up its root: behind that, only a
configuration file without text or a path that no file can have makes it fail. -/
def Fault.isLate : Fault → Bool
  | .fileNotText => true
  | .path _ => true
  | _ => false

namespace Workspace

variable {α : Type}

/-- The run touches the root and the configuration only, says nothing but errors, and leaves no
trace if it fails early. -/
structure IsPreparation (ws : Workspace) (r : Run Workspace α) : Prop where
  said : ∀ x ∈ r.said, ∃ message, x.1 = .log .error message
  state : ∃ base configuration, r.state = { ws with base, configuration }
  error : ∀ f, r.result = .error f → f.isLate = false → r.state = ws

theorem IsPreparation.refused (ws : Workspace) (f : Fault) :
    IsPreparation (α := α) ws ⟨[], .error f, ws⟩ :=
  ⟨fun _ hx => absurd hx List.not_mem_nil, ⟨ws.base, ws.configuration, rfl⟩, fun _ _ _ => rfl⟩

/-- Reading the root does not look at the workspace. -/
theorem run_rootDirectory (env : Environment) (uri : String) :
    ∃ result, ∀ ws, (rootDirectory env uri).run ws = ⟨[], result, ws⟩ := by
  rw [rootDirectory_eq]
  have hread : ∃ result, ∀ ws,
      (if Text.beginsWith "file:" uri then Action.ofExcept .uri (Uri.toPath? uri)
        else pure none : Action Workspace (Option String)).run ws = ⟨[], result, ws⟩ := by
    split
    · cases Uri.toPath? uri with
      | ok path => exact ⟨.ok path, fun _ => rfl⟩
      | error e => exact ⟨.error (.uri e), fun _ => rfl⟩
    · exact ⟨.ok none, fun _ => rfl⟩
  obtain ⟨result, hread⟩ := hread
  cases result with
  | error f => exact ⟨.error f, fun ws => Action.run_bind_error (hread ws)⟩
  | ok path =>
    cases path with
    | none => exact ⟨_, fun ws => Action.run_bind_silent (hread ws)⟩
    | some path =>
      cases hresolve : env.files.resolve? (Path.ofString path) with
      | ok base =>
        refine ⟨.ok base, fun ws => ?_⟩
        rw [Action.run_bind_silent (hread ws)]
        simp only [Option.elim, hresolve]
        rfl
      | error e =>
        refine ⟨.error (.path e), fun ws => ?_⟩
        rw [Action.run_bind_silent (hread ws)]
        simp only [Option.elim, hresolve]
        rfl

/-- A root is refused, or it is taken up and its configuration is not, or both are, and the
configuration that was there before is gone. -/
theorem openRoot_cases (env : Environment) (uri : String) :
    (∃ f, ∀ ws, (openRoot env uri).run ws = ⟨[], .error f, ws⟩) ∨
      (∃ f base, f.isLate = true ∧
        ∀ ws, (openRoot env uri).run ws = ⟨[], .error f, { ws with base := some base }⟩) ∨
      ∃ (messages : List String) (base : Path) (configuration : Configuration), ∀ ws, ∃ said,
        (openRoot env uri).run ws = ⟨said, .ok (), { ws with base := some base, configuration }⟩ ∧
        said.map (·.1) = messages.map (.log .error) := by
  obtain ⟨result, hdirectory⟩ := run_rootDirectory env uri
  unfold openRoot
  cases result with
  | error f => exact .inl ⟨f, fun ws => Action.run_bind_error (hdirectory ws)⟩
  | ok base =>
    refine .inr ?_
    have hbase (ws : Workspace) {f : Unit → Action Workspace Unit} :
        ((Action.update fun ws : Workspace => { ws with base := some base }) >>= f).run ws =
          (f ()).run { ws with base := some base } := Action.run_bind_silent rfl
    cases hload : Configuration.load env.files base with
    | ok configuration =>
      refine .inr ⟨[], base, configuration, fun ws => ⟨[], ?_, rfl⟩⟩
      rw [Action.run_bind_silent (hdirectory ws), hbase, hload]
      rfl
    | error e =>
      cases e with
      | refused e =>
        refine .inr ⟨[e.message], base, {}, fun ws =>
          ⟨[(.log .error e.message, { ws with base := some base })], ?_, rfl⟩⟩
        rw [Action.run_bind_silent (hdirectory ws), hbase, hload]
        rfl
      | notText =>
        refine .inl ⟨.fileNotText, base, rfl, fun ws => ?_⟩
        rw [Action.run_bind_silent (hdirectory ws), hbase, hload]
        rfl
      | unresolvable e =>
        refine .inl ⟨.path e, base, rfl, fun ws => ?_⟩
        rw [Action.run_bind_silent (hdirectory ws), hbase, hload]
        rfl

/-- What follows once the root is settled. -/
def applyOptions (env : Environment) (id : ServerId) (options : Json) :
    Action Workspace ServerId := do
  applySettings env options
  return id

/-- Settings change the configuration only, and fail late. -/
theorem applyOptions_cases (env : Environment) (id : ServerId) (options : Json) (ws : Workspace) :
    (∀ x ∈ ((applyOptions env id options).run ws).said, ∃ message, x.1 = .log .error message) ∧
      (∃ configuration, ((applyOptions env id options).run ws).state = { ws with configuration }) ∧
      ∀ f, ((applyOptions env id options).run ws).result = .error f → f.isLate = true := by
  unfold applyOptions
  rw [Action.run_bind_pure _ fun _ => id, run_applySettings]
  simp only
  cases (ws.configuration.update env.files ws.base options.toData).2 with
  | ok refused =>
    refine ⟨fun x hx => ?_, ⟨_, rfl⟩, nofun⟩
    obtain ⟨e, -, rfl⟩ := List.mem_map.1 hx
    exact ⟨_, rfl⟩
  | error e =>
    refine ⟨fun _ hx => absurd hx List.not_mem_nil, ⟨_, rfl⟩, fun f hf => ?_⟩
    obtain rfl := Except.error.inj hf
    rfl

theorem prepare_eq (env : Environment) (id : ServerId) (root : Json)
    (folders : List WorkspaceFolder) (options : Json) :
    prepare env id root folders options =
      match chosenRoot root folders with
      | .null => applyOptions env id options
      | .str uri => openRoot env uri >>= fun _ => applyOptions env id options
      | _ => Action.stop .lacking := by
  unfold prepare
  cases chosenRoot root folders <;> rfl

/-- Preparing is a preparation. -/
theorem isPreparation_prepare (env : Environment) (id : ServerId) (root : Json)
    (folders : List WorkspaceFolder) (options : Json) (ws : Workspace) :
    IsPreparation ws ((prepare env id root folders options).run ws) := by
  rw [prepare_eq]
  split
  · obtain ⟨hsaid, ⟨configuration, hstate⟩, herror⟩ := applyOptions_cases env id options ws
    exact ⟨hsaid, ⟨ws.base, configuration, hstate⟩,
      fun f hf hearly => by simp [herror f hf] at hearly⟩
  · next uri _ =>
    rcases openRoot_cases env uri with ⟨f, hrun⟩ | ⟨f, base, hlate, hrun⟩ |
      ⟨messages, base, configuration, hrun⟩
    · rw [Action.run_bind_error (hrun ws)]
      exact .refused ws f
    · rw [Action.run_bind_error (hrun ws)]
      refine ⟨fun _ hx => absurd hx List.not_mem_nil, ⟨some base, ws.configuration, rfl⟩,
        fun f' hf hearly => ?_⟩
      rw [← Except.error.inj hf, hlate] at hearly
      cases hearly
    · obtain ⟨said, hrun, hmessages⟩ := hrun ws
      rw [Action.run_bind_ok hrun]
      obtain ⟨hsaid, ⟨configuration', hstate⟩, herror⟩ :=
        applyOptions_cases env id options { ws with base := some base, configuration }
      refine ⟨fun x hx => ?_, ⟨some base, configuration', hstate⟩,
        fun f hf hearly => by simp [herror f hf] at hearly⟩
      rcases List.mem_append.1 hx with hx | hx
      · have hmem : x.1 ∈ messages.map (Effect.log .error) := by
          rw [← hmessages]
          exact List.mem_map_of_mem hx
        obtain ⟨message, -, hmessage⟩ := List.mem_map.1 hmem
        exact ⟨message, hmessage.symm⟩
      · exact hsaid x hx
  · exact .refused ws .lacking

/-- Under a root that is named, it does not matter which root and which configuration were there
before: the same is said and yielded, and if that is no failure, the same is left. -/
theorem run_prepare_named (env : Environment) (id : ServerId) {root : Json}
    {folders : List WorkspaceFolder} (hroot : (chosenRoot root folders).isNull = false)
    (options : Json) (ws : Workspace) (base : Option Path) (configuration : Configuration) :
    ((prepare env id root folders options).run { ws with base, configuration }).said.map (·.1) =
        ((prepare env id root folders options).run ws).said.map (·.1) ∧
      ((prepare env id root folders options).run { ws with base, configuration }).result =
        ((prepare env id root folders options).run ws).result ∧
      ∀ x, ((prepare env id root folders options).run ws).result = .ok x →
        ((prepare env id root folders options).run { ws with base, configuration }).state =
          ((prepare env id root folders options).run ws).state := by
  rw [prepare_eq]
  split
  · next h => simp [h, Json.isNull] at hroot
  · next uri _ =>
    rcases openRoot_cases env uri with ⟨f, hrun⟩ | ⟨f, base', hlate, hrun⟩ |
      ⟨messages, base', configuration', hrun⟩
    · rw [Action.run_bind_error (hrun _), Action.run_bind_error (hrun _)]
      exact ⟨rfl, rfl, nofun⟩
    · rw [Action.run_bind_error (hrun _), Action.run_bind_error (hrun _)]
      exact ⟨rfl, rfl, nofun⟩
    · obtain ⟨said, hsaid, hmessages⟩ := hrun ws
      obtain ⟨said', hsaid', hmessages'⟩ := hrun { ws with base, configuration }
      rw [Action.run_bind_ok hsaid, Action.run_bind_ok hsaid']
      exact ⟨by simp [hmessages, hmessages'], rfl, fun _ _ => rfl⟩
  · exact ⟨rfl, rfl, nofun⟩

end Workspace

end LanguageServer
