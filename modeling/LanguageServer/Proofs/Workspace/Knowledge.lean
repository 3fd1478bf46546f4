import LanguageServer.Proofs.Compiler.Conversation
import LanguageServer.Proofs.Workspace.Consulting
import LanguageServer.Proofs.Workspace.Frame

/-!
# What a compilation finds

A compilation depends on the documents, the configuration and the root of a workspace,
and on nothing that earlier compilations left there.  It is described by a function of
these: what the engine is handed, how its questions are answered, and what is known in
the end.  The actions of the workspace then compute this function.

## Main definitions

* `Knowledge` — what is known from a compilation.
* `Workspace.learn` — what a compilation of the documents finds.
* `Workspace.Knows` — a workspace knows what some compilation found.

## Main statements

* `Workspace.run_serve` — serving a computation is conversing with it.
* `Workspace.run_compile_of_learn`, `Workspace.run_compile_of_learn_error` — compiling is learning.
* `Workspace.learn_congr` — learning does not depend on the past.
-/

namespace LanguageServer

/-- The target version that an engine works with. -/
def Engine.targetVersion (engine : Engine) (version : Option String) : Option String :=
  match engine.accepts version with
  | .ok () => version
  | .error _ => none

/-- What is known from a compilation. -/
structure Knowledge where
  program : Program
  /-- The texts by source name: those handed to the engine, and those it read. -/
  sources : Table String String
  /-- The URIs of the documents by source name. -/
  uris : Table String String
  /-- The texts that the engine read from disk. -/
  readTexts : Table String String
  /-- Why sources that the engine asked for were not served. -/
  readFailures : Table String ReadFailure

namespace Workspace

/-! ## Serving -/

/-- Whether a question is answered from disk. -/
def Reaches (sources : Table String String) (x : Exchange) : Bool :=
  x.kind == sourceKind && !sources.contains x.path

/-- The texts among answers from disk, on top of others. -/
def readTextsOf (sources : Table String String) (t : Table String String) (l : List Exchange) :
    Table String String :=
  (l.filter (Reaches sources)).foldl
    (fun t x => match x.outcome with
      | .ok text => t.insert x.path text
      | .error _ => t) t

/-- The failures among answers from disk, on top of others. -/
def readFailuresOf (sources : Table String String) (t : Table String ReadFailure)
    (l : List Exchange) : Table String ReadFailure :=
  (l.filter (Reaches sources)).foldl
    (fun t x => match x.outcome with
      | .ok _ => t
      | .error failure => t.insert x.path failure) t

/-- How a question is answered when the engine was handed some texts. -/
def answer (files : FileSystem) (ws : Workspace) (sources : Table String String)
    (kind path : String) : Except Fault ReadOutcome :=
  if kind ≠ sourceKind then .ok (.error (.unsupportedKind kind))
  else
    match sources.find? path with
    | some text => .ok (.ok text)
    | none =>
      match readDisk files ws path with
      | .ok outcome => .ok outcome
      | .error e => .error (.path e)

/-- A question about a source that the engine was not handed is answered from disk. -/
theorem readDisk_of_answer {files : FileSystem} {ws : Workspace} {sources : Table String String}
    {path : String} (hnew : sources.find? path = none) {outcome : ReadOutcome}
    (h : ws.answer files sources sourceKind path = .ok outcome) :
    readDisk files ws path = .ok outcome := by
  unfold answer at h
  simp only [ne_eq, not_true_eq_false, if_false, hnew] at h
  cases hread : readDisk files ws path with
  | error e => simp [hread] at h
  | ok outcome' => simpa [hread] using h

/-- The workspace after some answers were given. -/
def noteAll (ws : Workspace) (l : List Exchange) : Workspace :=
  { ws with
    readTexts := readTextsOf ws.sources ws.readTexts l
    readFailures := readFailuresOf ws.sources ws.readFailures l }

@[simp] theorem noteAll_nil (ws : Workspace) : ws.noteAll [] = ws := rfl

theorem noteAll_cons (ws : Workspace) (x : Exchange) (l : List Exchange) :
    ws.noteAll (x :: l) = (ws.noteAll [x]).noteAll l := by
  cases h : Reaches ws.sources x <;>
    simp [noteAll, readTextsOf, readFailuresOf, h]

@[simp] theorem answer_noteAll (files : FileSystem) (ws : Workspace) (l : List Exchange)
    (sources : Table String String) :
    answer files (ws.noteAll l) sources = answer files ws sources := rfl

theorem run_serveSource (files : FileSystem) (kind path : String) (ws : Workspace) :
    (serveSource files kind path).run ws =
      match ws.answer files ws.sources kind path with
      | .error f => ⟨[], .error f, ws⟩
      | .ok outcome => ⟨[], .ok outcome, ws.noteAll [⟨kind, path, outcome⟩]⟩ := by
  unfold serveSource answer
  by_cases hkind : kind ≠ sourceKind
  · have hreach (outcome : ReadOutcome) : Reaches ws.sources ⟨kind, path, outcome⟩ = false := by
      simp [Reaches, hkind]
    simp only [if_pos hkind]
    simp [noteAll, readTextsOf, readFailuresOf, hreach]
  · simp only [if_neg hkind]
    rw [Action.run_bind_ok (Action.run_state ws)]
    cases hfind : ws.sources.find? path with
    | some text =>
      have hreach (outcome : ReadOutcome) : Reaches ws.sources ⟨kind, path, outcome⟩ = false := by
        simp [Reaches, Table.contains, hfind]
      simp [noteAll, readTextsOf, readFailuresOf, hreach]
    | none =>
      have hreach (outcome : ReadOutcome) : Reaches ws.sources ⟨kind, path, outcome⟩ = true := by
        simp [Reaches, Table.contains, hfind, Decidable.not_not.1 hkind]
      cases hread : readDisk files ws path with
      | error e => rfl
      | ok outcome =>
        have hnote : ws.noteAll [⟨kind, path, outcome⟩] = ws.noteRead path outcome := by
          cases outcome <;> simp [noteAll, noteRead, readTextsOf, readFailuresOf, hreach]
        simp only [hnote]
        rfl

/-- Serving a computation is conversing with it: what is said, the result, and what is noted. -/
theorem run_serve (files : FileSystem) (c : Compilation) (ws : Workspace) :
    ((serve files c).run ws).said.map (·.1) =
        (c.converse (ws.answer files ws.sources)).1.map (fun x => .engine (.read x.outcome)) ∧
      ((serve files c).run ws).result = (c.converse (ws.answer files ws.sources)).2 ∧
      ((serve files c).run ws).state =
        ws.noteAll (c.converse (ws.answer files ws.sources)).1 := by
  induction c generalizing ws with
  | done program => exact ⟨rfl, rfl, rfl⟩
  | failed reason => exact ⟨rfl, rfl, rfl⟩
  | unfinished => exact ⟨rfl, rfl, rfl⟩
  | ask kind path next ih =>
    have hserve := run_serveSource files kind path ws
    unfold serve Compiling.converse
    cases hanswer : ws.answer files ws.sources kind path with
    | error f =>
      simp only [hanswer] at hserve
      rw [Action.run_bind_error hserve]
      exact ⟨rfl, rfl, rfl⟩
    | ok outcome =>
      simp only [hanswer] at hserve
      rw [Action.run_bind_ok hserve, Action.run_bind_ok (Action.run_say _ _)]
      obtain ⟨hsaid, hresult, hstate⟩ := ih outcome (ws.noteAll [⟨kind, path, outcome⟩])
      refine ⟨?_, hresult, ?_⟩
      · simp only [List.nil_append, List.map_append, hsaid]
        rfl
      · exact hstate.trans (noteAll_cons ws _ _).symm

/-! ## Target versions -/

/-- The workspace after a target version was offered to an engine. -/
def noteVersion (ws : Workspace) (engine : Engine) (version : Option String) : Workspace :=
  match engine.accepts version with
  | .ok () => ws
  | .error _ => { ws with refusedVersion := version }

/-- What is said when a target version is offered to an engine. -/
def versionRemarks (ws : Workspace) (engine : Engine) (version : Option String) : List Effect :=
  match engine.accepts version with
  | .ok () => []
  | .error reason =>
    if ws.refusedVersion ≠ version then [.log .error (refusedVersionMessage version reason)] else []

theorem run_offerVersion (engine : Engine) (version : Option String) (ws : Workspace) :
    ∃ said, (offerVersion engine version).run ws =
        ⟨said, .ok (engine.targetVersion version), ws.noteVersion engine version⟩ ∧
      said.map (·.1) = ws.versionRemarks engine version := by
  unfold offerVersion Engine.targetVersion noteVersion versionRemarks
  cases haccept : engine.accepts version with
  | ok u => exact ⟨[], rfl, rfl⟩
  | error reason =>
    simp only
    rw [Action.run_bind_ok (Action.run_state ws)]
    by_cases hversion : ws.refusedVersion ≠ version
    · simp only [if_pos hversion]
      exact ⟨_, rfl, rfl⟩
    · refine ⟨[], ?_, by simp [hversion]⟩
      have hsame : { ws with refusedVersion := version } = ws := by
        rw [← Decidable.not_not.1 hversion]
      simp only [if_neg hversion, hsame]
      rfl

/-! ## Learning -/

/-- The questions of an engine that is handed some texts, and the program that it makes. -/
def inquire (env : Environment) (ws : Workspace) (sources : Table String String) :
    List Exchange × Except Fault Program :=
  let engine := env.engines ws.compilations
  (engine.compile
    { sources, remappings := ws.configuration.remappings
      targetVersion := engine.targetVersion ws.configuration.targetVersion }).converse
    (ws.answer env.files sources)

/-- What a compilation of the documents finds. -/
def learn (env : Environment) (ws : Workspace) : Except Fault Knowledge :=
  match nameDocuments .empty .empty ws.store.toList with
  | (_, .error e) => .error (.uri e)
  | (uris, .ok sources) =>
    let (exchanges, result) := ws.inquire env sources
    result.map fun program =>
      { program, uris
        sources := (readTextsOf sources .empty exchanges).entries.foldl
          (fun t e => t.insert e.1 e.2) sources
        readTexts := readTextsOf sources .empty exchanges
        readFailures := readFailuresOf sources .empty exchanges }

/-- The workspace after it took up what a compilation found. -/
def absorb (ws : Workspace) (k : Knowledge) : Workspace :=
  { ws with
    snapshot := some ⟨k.program, ws.store.generation⟩
    sources := k.sources
    uris := k.uris
    indexes := .empty
    readTexts := k.readTexts
    readFailures := k.readFailures
    compilations := ws.compilations + 1 }

/-- What a compilation says. -/
def compileRemarks (env : Environment) (ws : Workspace) : List Effect :=
  match nameDocuments .empty .empty ws.store.toList with
  | (_, .error _) => []
  | (_, .ok sources) =>
    [.engine (.sources sources), .engine (.remappings ws.configuration.remappings),
        .engine (.targetVersion ws.configuration.targetVersion)]
      ++ ws.versionRemarks (env.engines ws.compilations) ws.configuration.targetVersion
      ++ (ws.inquire env sources).1.map fun x => .engine (.read x.outcome)

/-- The workspace in which an engine that is handed some texts works. -/
def equipped (env : Environment) (ws : Workspace) (uris sources : Table String String) :
    Workspace :=
  { ws.noteVersion (env.engines ws.compilations) ws.configuration.targetVersion with
    uris, sources, readTexts := .empty, readFailures := .empty
    compilations := ws.compilations + 1 }

theorem compileRemarks_of_named (env : Environment) {ws : Workspace}
    {uris sources : Table String String}
    (h : nameDocuments .empty .empty ws.store.toList = (uris, .ok sources)) :
    ws.compileRemarks env =
      [.engine (.sources sources), .engine (.remappings ws.configuration.remappings),
          .engine (.targetVersion ws.configuration.targetVersion)]
        ++ ws.versionRemarks (env.engines ws.compilations) ws.configuration.targetVersion
        ++ (ws.inquire env sources).1.map fun x => .engine (.read x.outcome) := by
  simp only [compileRemarks, h]

/-- Noting the version equips a workspace that has handed its documents over. -/
theorem noteVersion_eq_equipped (env : Environment) (ws : Workspace)
    (uris sources : Table String String) :
    noteVersion
      { ws with
        uris, sources, readTexts := .empty, readFailures := .empty
        compilations := ws.compilations + 1 }
      (env.engines ws.compilations) ws.configuration.targetVersion
      = ws.equipped env uris sources := by
  unfold equipped noteVersion
  cases (env.engines ws.compilations).accepts ws.configuration.targetVersion <;> rfl

/-- The engine is served in an equipped workspace with the answers that it is asked about before. -/
theorem run_serve_equipped (env : Environment) (ws : Workspace) (uris sources : Table String String) :
    let r := (serve env.files ((env.engines ws.compilations).compile
      { sources, remappings := ws.configuration.remappings
        targetVersion := (env.engines ws.compilations).targetVersion
          ws.configuration.targetVersion })).run (ws.equipped env uris sources)
    r.said.map (·.1) = (ws.inquire env sources).1.map (fun x => .engine (.read x.outcome)) ∧
      r.result = (ws.inquire env sources).2 ∧
      r.state = (ws.equipped env uris sources).noteAll (ws.inquire env sources).1 := by
  have hanswer : (ws.equipped env uris sources).answer env.files
      (ws.equipped env uris sources).sources = ws.answer env.files sources := by
    unfold equipped noteVersion
    cases (env.engines ws.compilations).accepts ws.configuration.targetVersion <;> rfl
  have hserve := run_serve env.files ((env.engines ws.compilations).compile
    { sources, remappings := ws.configuration.remappings
      targetVersion := (env.engines ws.compilations).targetVersion
        ws.configuration.targetVersion }) (ws.equipped env uris sources)
  rw [hanswer] at hserve
  exact hserve

/-- A compilation of documents that can be named converses with an engine. -/
theorem run_compile (env : Environment) {ws : Workspace} {uris sources : Table String String}
    (h : nameDocuments .empty .empty ws.store.toList = (uris, .ok sources)) :
    ((compile env).run ws).said.map (·.1) = ws.compileRemarks env ∧
      ((compile env).run ws).result = (ws.inquire env sources).2 ∧
      ((compile env).run ws).state =
        match (ws.inquire env sources).2 with
        | .ok program =>
          ((ws.equipped env uris sources).noteAll (ws.inquire env sources).1).settle program
        | .error _ => (ws.equipped env uris sources).noteAll (ws.inquire env sources).1 := by
  -- The documents are named and handed over.
  unfold compile
  rw [Action.run_bind_ok (Action.run_state ws)]
  simp only [h]
  rw [Action.run_bind_ok (Action.run_update _ _)]
  rw [Action.run_bind_ok (show (Action.ofExcept Fault.uri (.ok sources)).run _ = ⟨[], .ok sources, _⟩
    from rfl)]
  rw [Action.run_bind_ok (Action.run_update _ _), Action.run_bind_ok (Action.run_say _ _),
    Action.run_bind_ok (Action.run_say _ _), Action.run_bind_ok (Action.run_say _ _)]
  -- The version is offered.
  obtain ⟨said, hoffer, hremarks⟩ := run_offerVersion (env.engines ws.compilations)
    ws.configuration.targetVersion
    { ws with
      uris, sources, readTexts := .empty, readFailures := .empty
      compilations := ws.compilations + 1 }
  rw [noteVersion_eq_equipped] at hoffer
  rw [Action.run_bind_ok hoffer, compileRemarks_of_named env h]
  replace hremarks : said.map (·.1) = ws.versionRemarks (env.engines ws.compilations)
    ws.configuration.targetVersion := hremarks
  rw [← hremarks]
  -- The engine is served, and what it makes is settled.
  obtain ⟨hsaid, hresult, hstate⟩ := run_serve_equipped env ws uris sources
  generalize hserve : (serve env.files _).run (ws.equipped env uris sources) = r
    at hsaid hresult hstate ⊢
  obtain ⟨reads, result, state⟩ := r
  simp only at hsaid hresult hstate
  subst hstate
  cases hinquire : (ws.inquire env sources).2 with
  | ok program =>
    rw [show result = .ok program from hresult.trans hinquire] at hserve
    rw [Action.run_bind_ok hserve]
    refine ⟨?_, rfl, rfl⟩
    simp only [List.map_append, List.map_cons, List.nil_append, hsaid, List.cons_append]
    simp only [List.append_cancel_left_eq, List.cons.injEq, true_and]
    exact List.append_nil _
  | error e =>
    rw [show result = .error e from hresult.trans hinquire] at hserve
    rw [Action.run_bind_error hserve]
    refine ⟨?_, rfl, rfl⟩
    simp only [List.map_append, List.map_cons, List.nil_append, hsaid, List.cons_append]

/-- What a compilation does is told by the versions that the engine accepts and by its questions. -/
theorem run_compile_congr {env env' : Environment} {ws : Workspace}
    {uris sources : Table String String}
    (hnames : nameDocuments .empty .empty ws.store.toList = (uris, .ok sources))
    (haccepts : (env'.engines ws.compilations).accepts = (env.engines ws.compilations).accepts)
    (hinquire : ws.inquire env' sources = ws.inquire env sources) :
    ((compile env').run ws).said.map (·.1) = ((compile env).run ws).said.map (·.1) ∧
      ((compile env').run ws).result = ((compile env).run ws).result ∧
      ((compile env').run ws).state = ((compile env).run ws).state := by
  obtain ⟨hsaid, hresult, hstate⟩ := run_compile env hnames
  obtain ⟨hsaid', hresult', hstate'⟩ := run_compile env' hnames
  have hremarks : ws.compileRemarks env' = ws.compileRemarks env := by
    simp only [compileRemarks, versionRemarks, hnames, haccepts, hinquire]
  have hequipped : ws.equipped env' uris sources = ws.equipped env uris sources := by
    simp only [equipped, noteVersion, haccepts]
  rw [hsaid, hsaid', hremarks, hresult, hresult', hinquire, hstate, hstate', hequipped, hinquire]
  exact ⟨rfl, rfl, rfl⟩

/-- Documents that cannot be named are not compiled. -/
theorem run_compile_of_unnamed (env : Environment) {ws : Workspace} {uris : Table String String}
    {e : Uri.UriError}
    (h : nameDocuments .empty .empty ws.store.toList = (uris, .error e)) :
    (compile env).run ws = ⟨[], .error (.uri e), { ws with uris }⟩ := by
  unfold compile
  rw [Action.run_bind_ok (Action.run_state ws)]
  simp only [h]
  rw [Action.run_bind_ok (Action.run_update _ _)]
  rfl

/-- A compilation that finds something, with all that it does. -/
theorem run_compile_of_learn {env : Environment} {ws : Workspace} {k : Knowledge}
    (h : ws.learn env = .ok k) :
    ((compile env).run ws).result = .ok k.program ∧
      ((compile env).run ws).state = (ws.noteVersion (env.engines ws.compilations)
        ws.configuration.targetVersion).absorb k := by
  unfold learn at h
  split at h
  · simp at h
  · next uris sources hnames =>
    obtain ⟨-, hresult, hstate⟩ := run_compile env hnames
    cases hinquire : (ws.inquire env sources).2 with
    | error e => simp [hinquire, Except.map] at h
    | ok program =>
      simp only [hinquire, Except.map, Except.ok.injEq] at h
      simp only [hinquire] at hresult hstate
      subst h
      refine ⟨hresult, hstate.trans ?_⟩
      unfold equipped noteVersion
      cases (env.engines ws.compilations).accepts ws.configuration.targetVersion <;> rfl

/-- A compilation that finds nothing leaves the latest program in place. -/
theorem run_compile_of_learn_error {env : Environment} {ws : Workspace} {f : Fault}
    (h : ws.learn env = .error f) :
    ((compile env).run ws).result = .error f ∧
      ((compile env).run ws).state.snapshot = ws.snapshot := by
  unfold learn at h
  split at h
  · next uris e hnames =>
    obtain rfl : Fault.uri e = f := Except.error.inj h
    rw [run_compile_of_unnamed env hnames]
    exact ⟨rfl, rfl⟩
  · next uris sources hnames =>
    obtain ⟨-, hresult, hstate⟩ := run_compile env hnames
    cases hinquire : (ws.inquire env sources).2 with
    | error e =>
      simp only [hinquire, Except.map, Except.error.injEq] at h
      simp only [hinquire] at hresult hstate
      refine ⟨h ▸ hresult, ?_⟩
      rw [hstate]
      unfold equipped noteVersion
      cases (env.engines ws.compilations).accepts ws.configuration.targetVersion <;> rfl
    | ok program => simp [hinquire, Except.map] at h

/-! ## Why compilations fail -/

/-- An answer is a fault only if a path is none. -/
theorem answer_eq_path {files : FileSystem} {ws : Workspace} {sources : Table String String}
    {kind path : String} {f : Fault}
    (h : ws.answer files sources kind path = .error f) : ∃ e, f = .path e := by
  unfold answer at h
  split at h
  · cases h
  · split at h
    · cases h
    · split at h
      · cases h
      · exact ⟨_, (Except.error.inj h).symm⟩

theorem answer_eq_error {files : FileSystem} {ws : Workspace} {sources : Table String String}
    {kind path : String} {f : Fault} (h : ws.answer files sources kind path = .error f) :
    f.stopsCompiling = true := by
  obtain ⟨e, rfl⟩ := answer_eq_path h
  rfl

/-- A compilation fails because of a path or the engine, or because the documents cannot be named.
-/
theorem learn_eq_error {env : Environment} {ws : Workspace} {f : Fault}
    (h : ws.learn env = .error f) :
    f.stopsCompiling = true ∨
      ∃ e, f = .uri e ∧ (nameDocuments .empty .empty ws.store.toList).2 = .error e := by
  unfold learn at h
  split at h
  · next uris e hnames =>
    obtain rfl := Except.error.inj h
    exact .inr ⟨e, rfl, by rw [hnames]⟩
  · next uris sources hnames =>
    cases hinquire : (ws.inquire env sources).2 with
    | ok program => simp [hinquire, Except.map] at h
    | error e =>
      simp only [hinquire, Except.map, Except.error.injEq] at h
      exact .inl (Compiling.converse_eq_error (fun _ _ _ => answer_eq_error) (h ▸ hinquire))

/-- Documents of which a compilation finds something can be named. -/
theorem named_of_learn {env : Environment} {ws : Workspace} {k : Knowledge}
    (h : ws.learn env = .ok k) :
    ∃ sources, nameDocuments .empty .empty ws.store.toList = (k.uris, .ok sources) := by
  unfold learn at h
  split at h
  · cases h
  · next uris sources hnames =>
    cases hinquire : (ws.inquire env sources).2 with
    | error e => simp [hinquire, Except.map] at h
    | ok program =>
      simp only [hinquire, Except.map, Except.ok.injEq] at h
      subst h
      exact ⟨sources, hnames⟩

/-! ## Independence of the past -/

/-- The documents, the configuration and the root are the same. -/
structure SameTask (ws ws' : Workspace) : Prop where
  store : ws'.store = ws.store
  configuration : ws'.configuration = ws.configuration
  base : ws'.base = ws.base

theorem SameTask.refl (ws : Workspace) : SameTask ws ws := ⟨rfl, rfl, rfl⟩

theorem SameTask.symm {ws ws' : Workspace} (h : SameTask ws ws') : SameTask ws' ws :=
  ⟨h.store.symm, h.configuration.symm, h.base.symm⟩

theorem SameTask.trans {ws ws' ws'' : Workspace} (h : SameTask ws ws') (h' : SameTask ws' ws'') :
    SameTask ws ws'' :=
  ⟨h'.store.trans h.store, h'.configuration.trans h.configuration, h'.base.trans h.base⟩

theorem Keeps.sameTask {ws ws' : Workspace} (h : Keeps ws ws') : SameTask ws ws' :=
  ⟨h.store, h.configuration, h.base⟩

/-- What is read from disk depends on the root and the include paths only. -/
theorem answer_congr (files : FileSystem) {ws ws' : Workspace}
    (hconfiguration : ws'.configuration = ws.configuration) (hbase : ws'.base = ws.base)
    (sources : Table String String) : ws'.answer files sources = ws.answer files sources := by
  funext kind path
  have hlocate : ws'.locate path = ws.locate path := by
    unfold locate
    rw [hbase]
  have hmay : ws'.mayRead = ws.mayRead := by
    unfold mayRead allowedDirectories
    rw [hbase, hconfiguration]
  have hread : readDisk files ws' path = readDisk files ws path := by
    unfold readDisk
    rw [hlocate, hmay]
  unfold answer
  rw [hread]

end Workspace

/-- All engines of a session are the same. -/
def Environment.IsUniform (env : Environment) : Prop := ∀ m n, env.engines m = env.engines n

namespace Workspace

variable {env : Environment}

theorem inquire_congr (henv : env.IsUniform) {ws ws' : Workspace} (h : SameTask ws ws')
    (sources : Table String String) : ws'.inquire env sources = ws.inquire env sources := by
  unfold inquire
  rw [henv ws'.compilations ws.compilations, answer_congr env.files h.configuration h.base,
    h.configuration]

/-- What a compilation finds does not depend on what happened before. -/
theorem learn_congr (henv : env.IsUniform) {ws ws' : Workspace} (h : SameTask ws ws') :
    ws'.learn env = ws.learn env := by
  unfold learn
  rw [h.store]
  split
  · rfl
  · rw [inquire_congr henv h]

end Workspace

/-- How the sources of a compilation are looked up right after it. -/
def Knowledge.view (k : Knowledge) : View := (Workspace.empty.absorb k).view

namespace Workspace

/-- The workspace knows what a compilation found. -/
structure Knows (ws : Workspace) (k : Knowledge) : Prop where
  program : ws.snapshot.map (·.program) = some k.program
  view : ws.view = k.view
  readFailures : ws.readFailures = k.readFailures

theorem knows_absorb (ws : Workspace) (k : Knowledge) : (ws.absorb k).Knows k := ⟨rfl, rfl, rfl⟩

theorem Recalls.knows {ws ws' : Workspace} (h : Recalls ws ws') {k : Knowledge}
    (hk : ws.Knows k) : ws'.Knows k := by
  have hview := h.view_eq
  obtain ⟨indexes, rfl, -⟩ := h
  exact ⟨hk.program, hview.trans hk.view, hk.readFailures⟩

end Workspace

end LanguageServer
