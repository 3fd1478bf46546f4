import LanguageServer.Proofs.Session.Announcing

/-!
# Documents and the URIs of others

A compilation names all tracked documents, also those that are closed.  One document whose
URI cannot be taken apart therefore keeps the diagnostics and the answers of all others
back.  If there is no such document, a document with a plain file URI is served whatever
else happened: opening it publishes its diagnostics, and queries in it are answered, unless
the engine stops or a source on disk has no URI.

## Main definitions

* `Uri.IsPlainFile` — the URI of an absolute path in characters that need no coding.
* `View.answerSources` — the sources in which the answer to a query lies.
* `Workspace.Balks` — why a query is not answered, although all documents have names.

## Main statements

* `Uri.IsPlainFile.isNameable` — a document with a plain file URI has a name.
* `Workspace.balks_of_eq_error` — a query that fails balks.
* `Session.Reached.isolates` — what is published for a document with a plain file URI, and how
  queries in it are answered.
-/

namespace LanguageServer

open Workspace

/-! ## Plain file URIs -/

namespace Uri

/-- The URI of an absolute path in characters that percent coding leaves alone. -/
def IsPlainFile (uri : String) : Prop :=
  ∃ path : List Char, uri.toList = "file:///".toList ++ path ∧ ∀ c ∈ path, isPlain c = true

/-- A URI without a host can be taken apart. -/
theorem IsPlainFile.exists_toPath? {uri : String} (h : IsPlainFile uri) :
    ∃ path, toPath? uri = .ok path := by
  obtain ⟨path, huri, hplain⟩ := h
  have hlead : ∀ c ∈ "file:///".toList, (c != '\t' && c != '\r' && c != '\n') = true :=
    List.all_eq_true.1 (by decide)
  have hkeep : ∀ c ∈ "file:///".toList ++ path, (c != '\t' && c != '\r' && c != '\n') = true := by
    intro c hc
    refine (List.mem_append.1 hc).elim (hlead c) fun hc => ?_
    have hc := hplain c hc
    by_contra hblank
    simp only [Bool.and_eq_true, bne_iff_ne, ne_eq, not_and_or, not_not] at hblank
    rcases hblank with (rfl | rfl) | rfl <;> revert hc <;> decide
  have hscheme : cutScheme ("file:///".toList ++ path) = ("file".toList, '/' :: '/' :: '/' :: path) := by
    unfold cutScheme
    rw [Text.cutFirst?_eq_some_iff.2 (⟨rfl, by decide⟩ : "file:///".toList ++ path =
      'f' :: "ile".toList ++ ':' :: '/' :: '/' :: '/' :: path ∧ _)]
    exact if_pos (by decide)
  have hhost : cutHost ('/' :: '/' :: '/' :: path) = ([], '/' :: path) := rfl
  unfold toPath?
  simp only [huri, List.filter_eq_self.2 hkeep, hscheme, hhost]
  exact ⟨_, rfl⟩

end Uri

/-- A document with a plain file URI has a name. -/
theorem Uri.IsPlainFile.isNameable {uri : String} (h : IsPlainFile uri) : IsNameable uri := by
  obtain ⟨path, hpath⟩ := h.exists_toPath?
  unfold IsNameable sourceNameFor
  split
  · rw [hpath]
    cases path with
    | none => exact ⟨uri, rfl⟩
    | some path =>
      by_cases hempty : path.isEmpty = true
      · exact ⟨uri, by simp [hempty, bind, Except.bind, pure, Except.pure]⟩
      · exact ⟨path, by simp [hempty, bind, Except.bind, pure, Except.pure]⟩
  · exact ⟨uri, rfl⟩

theorem DocumentStore.contains_track_of_ne (s : DocumentStore) {uri other : String} (h : uri ≠ other)
    (language : Json) (version : Option Int) (content : String) :
    (s.track uri language version content).contains other = s.contains other := by
  simp [track, contains, Table.contains, h]

/-! ## Queries that fail -/

namespace View

variable {v : View} {program : Program} {source : String} {p : Position} {fault : Fault}

/-- The sources in which the answer to a query lies. -/
def answerSources (v : View) (program : Program) (source : String) (p : Position) :
    Query → List String
  | .definition => ((v.declarationAt? program source p).map (·.location.source)).toList
  | .references =>
    match v.declarationAt? program source p with
    | some d =>
      ((Navigation.unitsInOrder program).filter fun e => !(occurrences d e.2).isEmpty).map (·.1)
    | none => []
  | .highlights => []

theorem uri_of_definition_eq_error (h : v.definition program source p = .error fault) :
    ∃ name ∈ v.answerSources program source p .definition, v.uri name = .error fault := by
  unfold definition at h
  unfold answerSources
  cases hd : v.declarationAt? program source p with
  | none => simp [hd] at h
  | some d =>
    refine ⟨d.location.source, by simp, ?_⟩
    simp only [hd, location?] at h
    cases hrange : v.range? d.location with
    | none => simp [hrange, Except.map] at h
    | some range =>
      cases huri : v.uri d.location.source with
      | ok uri => simp [hrange, huri, Except.map] at h
      | error e => simpa [hrange, huri, Except.map] using h

theorem uri_of_locate_eq_error {l : List Occurrence} (h : v.locate source l = .error fault) :
    l ≠ [] ∧ v.uri source = .error fault := by
  induction l with
  | nil => cases h
  | cons o rest ih =>
    refine ⟨by simp, ?_⟩
    rw [locate] at h
    cases hrange : v.range? o.location with
    | none =>
      simp only [hrange] at h
      exact (ih h).2
    | some range =>
      simp only [hrange] at h
      cases huri : v.uri source with
      | error e => simpa [huri, bind, Except.bind] using h
      | ok uri =>
        cases hrest : v.locate source rest with
        | error e =>
          obtain rfl : e = fault := by simpa [huri, hrest, bind, Except.bind] using h
          rw [← huri]
          exact (ih hrest).2
        | ok others => simp [huri, hrest, bind, Except.bind, pure, Except.pure] at h

theorem uri_of_locateAll_eq_error {d : Declaration} {units : List (String × CompiledUnit)}
    (h : v.locateAll d units = .error fault) :
    ∃ e ∈ units, (occurrences d e.2).isEmpty = false ∧ v.uri e.1 = .error fault := by
  induction units with
  | nil => cases h
  | cons e rest ih =>
    obtain ⟨name, u⟩ := e
    rw [locateAll] at h
    cases hhere : v.locate name (occurrences d u) with
    | error e =>
      obtain rfl : e = fault := by simpa [hhere, bind, Except.bind] using h
      obtain ⟨hne, huri⟩ := uri_of_locate_eq_error hhere
      exact ⟨(name, u), List.mem_cons_self, by simpa using hne, huri⟩
    | ok here =>
      cases hrest : v.locateAll d rest with
      | error e =>
        obtain rfl : e = fault := by simpa [hhere, hrest, bind, Except.bind] using h
        obtain ⟨entry, hentry, hfound⟩ := ih hrest
        exact ⟨entry, List.mem_cons_of_mem _ hentry, hfound⟩
      | ok others => simp [hhere, hrest, bind, Except.bind, pure, Except.pure] at h

theorem uri_of_references_eq_error (h : v.references program source p = .error fault) :
    ∃ name ∈ v.answerSources program source p .references, v.uri name = .error fault := by
  unfold references at h
  unfold answerSources
  cases hd : v.declarationAt? program source p with
  | none => simp [hd] at h
  | some d =>
    simp only [hd] at h
    cases hall : v.locateAll d (Navigation.unitsInOrder program) with
    | ok l => simp [hall, Except.map] at h
    | error e =>
      obtain rfl : e = fault := by simpa [hall, Except.map] using h
      obtain ⟨entry, hentry, hne, huri⟩ := uri_of_locateAll_eq_error hall
      exact ⟨entry.1, List.mem_map_of_mem (List.mem_filter.2 ⟨hentry, by simp [hne]⟩), huri⟩

end View

namespace Workspace

variable {env : Environment} {ws : Workspace} {fault : Fault}

/-- An up-to-date program is missing only if a compilation finds none. -/
theorem learn_of_upToDate_eq_error (h : ((upToDate env).run ws).result = .error fault) :
    ws.learn env = .error fault := by
  have hcompile (h : ((compile env).run ws).result = .error fault) : ws.learn env = .error fault := by
    rw [knows_compile.1] at h
    cases hlearn : ws.learn env <;> simp_all [Except.map]
  unfold upToDate at h
  rw [Action.run_bind_ok (Action.run_state ws)] at h
  cases hs : ws.snapshot with
  | none =>
    simp only [hs] at h
    exact hcompile h
  | some s =>
    simp only [hs] at h
    split at h
    · cases h
    · exact hcompile h

/-- A query in a tracked document with a name fails with the latest program, or when it reads its
view. -/
theorem query_eq_error {α : Type} {answer : Program → String → Position → Action Workspace α}
    {f : View → Program → String → Position → Except Fault α}
    (hreads : ∀ program source p, Reads (answer program source p) fun v => f v program source p)
    {uri source : String} {p : Position} (htracked : ws.store.contains uri = true)
    (hsource : sourceNameFor uri = .ok source)
    (h : ((query env answer uri p).run ws).result = .error fault) :
    ((upToDate env).run ws).result = .error fault ∨
      ∃ program, ((upToDate env).run ws).result = .ok program ∧
        f ((upToDate env).run ws).state.view program source p = .error fault := by
  obtain ⟨-, -, hquery⟩ := run_query_tracked env hreads htracked p
  rw [hquery, hsource] at h
  cases hresult : ((upToDate env).run ws).result with
  | error e =>
    rw [hresult] at h
    exact .inl (congrArg Except.error (Except.error.inj h))
  | ok program =>
    rw [hresult] at h
    exact .inr ⟨program, rfl, h⟩

theorem isAside_of_mem_query {q : Query} {uri : String} {p : Position} {e : Effect}
    (he : e ∈ ((q.action env uri p).run ws).said.map (·.1)) : e.IsAside := by
  have hfrom {α : Type} {a : Action Workspace α} (ha : Discreet a) {g : α → Json}
      (he : e ∈ ((do return g (← a) : Action Workspace Json).run ws).said.map (·.1)) : e.IsAside := by
    rw [Action.run_bind_pure] at he
    obtain ⟨entry, hentry, rfl⟩ := List.mem_map.1 he
    exact ((ha ws).1 entry hentry).1
  cases q with
  | definition => exact hfrom (discreet_query env reads_definition uri p) he
  | references => exact hfrom (discreet_query env reads_references uri p) he
  | highlights => exact hfrom (discreet_query env reads_highlights uri p) he

/-- Although all documents have names, a query is not answered: the engine stops or asks for a path
that no file can have, or the answer lies in a source without a URI. -/
inductive Balks (env : Environment) (ws : Workspace) (q : Query) (uri : String) (p : Position) : Prop
  | stopped {f : Fault} (hprogram : ((upToDate env).run ws).result = .error f)
      (hf : f.stopsCompiling = true)
  | unplaced {program : Program} {source name : String} {f : Fault}
      (hprogram : ((upToDate env).run ws).result = .ok program)
      (hsource : sourceNameFor uri = .ok source)
      (hname : name ∈ ((upToDate env).run ws).state.view.answerSources program source p q)
      (huri : ((upToDate env).run ws).state.view.uri name = .error f)

/-- If all documents have names, a query in one of them that fails balks. -/
theorem balks_of_eq_error (hformed : ws.store.IsFormed) (hnames : ws.TracksOnly IsNameable)
    {q : Query} {uri : String} {p : Position} (htracked : ws.store.contains uri = true)
    (h : ((q.action env uri p).run ws).result = .error fault) : ws.Balks env q uri p := by
  obtain ⟨source, hsource⟩ := hnames uri htracked
  have hfails {α : Type} {answer : Program → String → Position → Action Workspace α}
      {f : View → Program → String → Position → Except Fault α}
      (hreads : ∀ program source p, Reads (answer program source p) fun v => f v program source p)
      (hf : ∀ v program, f v program source p = .error fault →
        ∃ name ∈ v.answerSources program source p q, v.uri name = .error fault)
      {g : α → Json}
      (h : ((do return g (← query env answer uri p) : Action Workspace Json).run ws).result =
        .error fault) : ws.Balks env q uri p := by
    rw [Action.run_bind_pure] at h
    have hquery : ((query env answer uri p).run ws).result = .error fault := by
      cases hresult : ((query env answer uri p).run ws).result <;> simp_all [Except.map]
    rcases query_eq_error hreads htracked hsource hquery with hprogram | ⟨program, hprogram, hview⟩
    · exact .stopped hprogram
        (stopsCompiling_of_learn_eq_error hformed hnames (learn_of_upToDate_eq_error hprogram))
    · obtain ⟨name, hname, huri⟩ := hf _ _ hview
      exact .unplaced hprogram hsource hname huri
  cases q with
  | definition => exact hfails reads_definition (fun _ _ => View.uri_of_definition_eq_error) h
  | references => exact hfails reads_references (fun _ _ => View.uri_of_references_eq_error) h
  | highlights => exact hfails reads_highlights (fun _ _ => nofun) h

end Workspace

namespace Session

open Serving

variable {env : Environment} {id : ServerId} {budget : Nat} {stopped : Bool} {sent : List Outbound}

/-! ## Messages about a document -/

theorem isResponse_of_mem_publications {l : List Effect} {m : Outbound} (h : m ∈ publications l) :
    m.isResponse = false := by
  obtain ⟨e, -, he⟩ := List.mem_filterMap.1 h
  cases e <;> cases he
  rfl

/-- A request that is handled without error gets one response, with the result of what it asks for.
-/
theorem responses_of_succeeds {s s' : Session Workspace} (hs : s.failing = 0) (hidle : s.IsIdle)
    (houtbox : s.outbox = []) {v i : Json} {m : Method} (hv : handled? s v = some m)
    (hm : m.isDelegated = true) (hid : v.field? "id" = some i)
    (hstep : step (.ofCompiler env id) (.arrival (.message v)) s = .ok () s')
    (hsucceeds : succeeds (.ofCompiler env id) s v = true) :
    ∃ answer, s'.outbox.filter (·.isResponse) = [.result i answer] := by
  obtain ⟨t, remarks, y, hreceive, -, -, hsent, hremarks⟩ :=
    receive_handled (spareChannel_ofCompiler env id) hs hidle (handled?_eq_some hv).2
  obtain rfl : t = s' := by injection hreceive.symm.trans hstep
  have hresponses : t.outbox.filter (·.isResponse) =
      (response (some i) m.name y).filter (·.isResponse) := by
    have hremarks : remarks.filter (·.isResponse) = [] := List.filter_eq_nil_iff.2 fun m hm => by
      simp [Outbound.isResponse_of_isRemark (hremarks m hm)]
    have hpublished : (publications (heard (.ofCompiler env id) s v)).filter (·.isResponse) = [] :=
      List.filter_eq_nil_iff.2 fun m hm => by simp [isResponse_of_mem_publications hm]
    rw [hsent, houtbox, hid]
    simp only [List.filter_append, hremarks, hpublished, List.nil_append, List.append_nil]
  rcases step_handled_delegated hv hm hstep with ⟨a, x, t', -, -, -, hx, ht⟩ | ⟨-, hfails, -⟩
  · rw [hsucceeds] at hx
    cases x with
    | error f => cases hx
    | ok value =>
      have hmem : .result i value ∈ (response (some i) m.name y).filter (·.isResponse) := by
        rw [← hresponses, ht, hid]
        simp [finished, response, Outbound.isResponse]
      cases y with
      | error f => cases f <;> simp [response] at hmem
      | ok answer => exact ⟨answer, hresponses⟩
  · rw [hsucceeds] at hfails
    cases hfails

/-- A message that opens a document is handled without error exactly if what a compilation finds can
be shown, and then it publishes what this yields for the document, once, and nothing else. -/
theorem publishes_of_opens {s : Session Workspace} (hs : s.failing = 0) (hidle : s.IsIdle)
    (houtbox : s.outbox = []) {v : Json} (hv : handled? s v = some .didOpen) {d : Params.Opened}
    (hd : Params.opened? (paramsOf v) = some d) {s' : Session Workspace}
    (hstep : step (.ofCompiler env id) (.arrival (.message v)) s = .ok () s') :
    (succeeds (.ofCompiler env id) s v = true ↔ (s.host.tracking d).IsPresentable env) ∧
      (succeeds (.ofCompiler env id) s v = true → ∃ diagnostics,
        ((compiledDiagnostics env d.uri).run (s.host.tracking d)).result = .ok diagnostics ∧
        s'.outbox.filter (·.isPublication) = [.publish d.uri (some d.version) diagnostics]) := by
  have ha : deed? (.ofCompiler env id) .didOpen (paramsOf v) =
      some (do openDocument env d; return Json.null) := by
    simp only [deed?, hd, Option.map_some]
    rfl
  have hsucceeds : succeeds (.ofCompiler env id) s v = true ↔ (s.host.tracking d).IsPresentable env := by
    rw [succeeds_iff hs hv rfl ha, ← exists_openDocument_iff, Action.run_bind_pure _ fun _ => Json.null]
    constructor
    · rintro ⟨⟨x, hx⟩, -⟩
      cases hresult : ((openDocument env d).run s.host).result with
      | error f => simp [hresult, Except.map] at hx
      | ok u => exact ⟨u, rfl⟩
    · rintro ⟨u, hu⟩
      obtain ⟨-, -, -, asides, diagnostics, -, hpublished, hasides⟩ := openDocument_eq_ok hu
      refine ⟨⟨Json.null, by simp only [hu]; rfl⟩, fun e he => ?_⟩
      rw [hpublished] at he
      rcases List.mem_append.1 he with he | he
      · exact (hasides e he).not_isRefused
      · obtain rfl := List.mem_singleton.1 he
        simpa [Effect.isRefused, Params.fits] using Params.fits_of_opened? hd
  refine ⟨hsucceeds, fun hok => ?_⟩
  obtain ⟨ws₁, rfl, -, front, diagnostics, hcompiled, hsent, hfront⟩ :=
    outbox_of_opens hs hidle hv hd hstep hok
  refine ⟨diagnostics, hcompiled, ?_⟩
  have hsilent : front.filter (·.isPublication) = [] :=
    List.filter_eq_nil_iff.2 fun m hm => by simp [hfront m hm]
  rw [hsent, houtbox, List.filter_append, List.nil_append, hsilent]
  rfl

/-- Documents are kept apart from the URIs of others.  In any session that can come about, let all
tracked documents but one have names, and let this one have a plain file URI.  If a well-formed
message opens it, then it is handled without error exactly if a compilation of the documents with it
does not falter, and then the diagnostics that this yields for it are published, once, and nothing
else.  A well-formed query in it gets one response, with a result, unless the query balks. -/
theorem Reached.isolates {files : FileSystem} {reporter : String} {s : Session Workspace}
    (h : Reached (Toy.environment files budget reporter) id stopped sent s) {uri : String}
    (hplain : Uri.IsPlainFile uri)
    (hothers : ∀ other, other ≠ uri → s.host.store.contains other = true → IsNameable other) (v : Json) :
    ∃ s', Session.step (.ofCompiler (Toy.environment files budget reporter) id)
        (.arrival (.message v)) s.cleared = .ok () s' ∧
      (∀ d, handled? s.cleared v = some .didOpen → Params.opened? (paramsOf v) = some d → d.uri = uri →
        (succeeds (.ofCompiler (Toy.environment files budget reporter) id) s.cleared v = true ↔
          ¬ Falters (Toy.environment files budget reporter) (s.host.tracking d)) ∧
        (succeeds (.ofCompiler (Toy.environment files budget reporter) id) s.cleared v = true →
          ∃ diagnostics,
            ((compiledDiagnostics (Toy.environment files budget reporter) uri).run
              (s.host.tracking d)).result = .ok diagnostics ∧
            s'.outbox.filter (·.isPublication) = [.publish uri (some d.version) diagnostics])) ∧
      ∀ (q : Query) p i, handled? s.cleared v = some q.method →
        Params.documentPosition? (paramsOf v) = some (uri, p) → v.field? "id" = some i →
        s.host.store.contains uri = true →
        (∃ answer, s'.outbox.filter (·.isResponse) = [.result i answer]) ∨
          Balks (Toy.environment files budget reporter) s.host q uri p := by
  have henv : (Toy.environment files budget reporter).IsToy budget := fun _ => rfl
  generalize Toy.environment files budget reporter = env at h henv ⊢
  have hheld := h.isHeld henv
  have hformed := hheld.kept.formed
  have hworking : s.cleared.failing = 0 := hheld.working
  have hidle : s.cleared.IsIdle := ⟨hheld.quiet.dispatching, hheld.quiet.deferred⟩
  have hnames : s.host.TracksOnly IsNameable := fun other htracked => by
    by_cases heq : other = uri
    · exact heq ▸ hplain.isNameable
    · exact hothers other heq htracked
  obtain ⟨s', hstep⟩ := exists_step env id hworking hidle v
  refine ⟨s', hstep, ?_, ?_⟩
  · rintro d hv hd rfl
    have hnames' : (s.host.tracking d).TracksOnly IsNameable := fun other htracked => by
      by_cases heq : d.uri = other
      · exact heq ▸ hplain.isNameable
      · exact hothers other (Ne.symm heq)
          ((DocumentStore.contains_track_of_ne _ heq _ _ _).symm.trans htracked)
    have hformed' : (s.host.tracking d).store.IsFormed := hformed.track _ _ _ _
    obtain ⟨hiff, hpublishes⟩ := publishes_of_opens hworking hidle rfl hv hd hstep
    exact ⟨hiff.trans (isPresentable_iff_not_falters hformed' hnames'), hpublishes⟩
  · intro q p i hv hposition hid htracked
    have ha : deed? (.ofCompiler env id) q.method (paramsOf v) = some (q.action env uri p) := by
      rw [deed?_query, hposition]
      rfl
    by_cases hok : succeeds (.ofCompiler env id) s.cleared v = true
    · exact .inl (responses_of_succeeds hworking hidle rfl hv (isDelegated_query q) hid hstep hok)
    · right
      rw [succeeds_iff hworking hv (isDelegated_query q) ha] at hok
      cases hresult : ((q.action env uri p).run s.host).result with
      | ok x => exact absurd ⟨⟨x, hresult⟩, fun e he => (isAside_of_mem_query he).not_isRefused⟩ hok
      | error f => exact balks_of_eq_error hformed hnames htracked hresult

/-- A document without a file URI and with a mistake, and one with a plain file URI. -/
def plainDocument : List Json :=
  [requestOf 1 .initialise (.obj []), opening "u" "f;", opening "file:///a" "var g = 1;\ng;"]

/-- Beside another document, one with a plain file URI is opened once more, or a query in it is
answered. -/
theorem Reached.isolates_plainDocument :
    ∃ sent s s' s'', Reached loneEnvironment ⟨"toy", none⟩ false sent s ∧
      Session.step loneCapabilities (.arrival (.message (opening "file:///a" "g;"))) s.cleared =
        .ok () s' ∧
      (∃ diagnostics, s'.outbox.filter (·.isPublication) =
        [.publish "file:///a" (some 1) diagnostics]) ∧
      Session.step loneCapabilities (.arrival (.message (definitionRequest 2 "file:///a" 1 0)))
        s.cleared = .ok () s'' ∧
      ∃ answer, s''.outbox.filter (·.isResponse) = [.result (.int 2) answer] := by
  have hplain : Uri.IsPlainFile "file:///a" := ⟨['a'], by decide, List.all_eq_true.1 (by decide)⟩
  have hnamed : IsNameable "u" := ⟨"u", by decide +kernel⟩
  have hreached : Reached loneEnvironment ⟨"toy", none⟩
      (stopsAll loneCapabilities _ false plainDocument) _
      (Session.afterAll loneCapabilities { host := .empty } plainDocument) :=
    Reached.start.afterAll (by decide +kernel)
  have hcalm : stopsAll loneCapabilities { host := .empty } false plainDocument = false := by
    decide +kernel
  rw [hcalm] at hreached
  obtain ⟨s, hs⟩ : ∃ s, s = Session.afterAll loneCapabilities { host := .empty } plainDocument :=
    ⟨_, rfl⟩
  have hkeys : s.host.store.documents.keys = ["u", "file:///a"] := by
    subst hs
    decide +kernel
  have hv : handled? s.cleared (opening "file:///a" "g;") = some .didOpen := by
    subst hs
    decide +kernel
  have hok : succeeds loneCapabilities s.cleared (opening "file:///a" "g;") = true := by
    subst hs
    decide +kernel
  have hv' : handled? s.cleared (definitionRequest 2 "file:///a" 1 0) = some .definition := by
    subst hs
    decide +kernel
  have hanswered : (((upToDate loneEnvironment).run s.host).result.toOption.any fun program =>
      (((upToDate loneEnvironment).run s.host).state.view.answerSources program "/a" ⟨1, 0⟩
        .definition).all fun name =>
          (((upToDate loneEnvironment).run s.host).state.view.uri name).isOk) = true := by
    subst hs
    decide +kernel
  rw [← hs] at hreached
  have hothers : ∀ other, other ≠ "file:///a" → s.host.store.contains other = true →
      IsNameable other := fun other hne htracked => by
    have hmem := (Table.contains_iff_mem_keys _ _).1 htracked
    rw [hkeys] at hmem
    obtain rfl : other = "u" := by simpa [hne] using hmem
    exact hnamed
  obtain ⟨s', hstep, hopens, -⟩ := hreached.isolates hplain hothers (opening "file:///a" "g;")
  obtain ⟨diagnostics, -, hpublished⟩ := (hopens ⟨"file:///a", .str "toy", 1, "g;"⟩ hv rfl rfl).2 hok
  obtain ⟨s'', hstep', -, hqueries⟩ :=
    hreached.isolates hplain hothers (definitionRequest 2 "file:///a" 1 0)
  refine ⟨_, s, s', s'', hreached, hstep, ⟨diagnostics, hpublished⟩, hstep', ?_⟩
  rcases hqueries .definition ⟨1, 0⟩ (.int 2) hv' (by decide +kernel) rfl
    ((Table.contains_iff_mem_keys _ _).2 (by rw [hkeys]; decide)) with
    hanswer | ⟨hprogram, -⟩ | ⟨hprogram, hsource, hname, huri⟩
  · exact hanswer
  · rw [show ((upToDate loneEnvironment).run s.host).result = _ from hprogram] at hanswered
    cases hanswered
  · obtain rfl := Except.ok.inj (hsource.symm.trans (show sourceNameFor "file:///a" = .ok "/a" by
      decide +kernel))
    rw [show ((upToDate loneEnvironment).run s.host).result = _ from hprogram] at hanswered
    have hplaced := List.all_eq_true.1 hanswered _ hname
    rw [show ((upToDate loneEnvironment).run s.host).state.view.uri _ = _ from huri] at hplaced
    cases hplaced

end Session

end LanguageServer
