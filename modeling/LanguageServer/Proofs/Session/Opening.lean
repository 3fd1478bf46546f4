import LanguageServer.Proofs.Session.Leftovers
import LanguageServer.Proofs.Session.Reached
import LanguageServer.Proofs.Workspace.Opening

/-!
# What is shown when a document is opened

Opening a document publishes what a compilation finds in it, and nothing else.  So the
opened document shows what a compilation yields for it, and so does every other document
that did before and is not reached by the opening.  A document that leads to the opened one
may go on showing what is not so any more: an import that failed is there now.

## Main definitions

* `Session.IsShown` — a document shows what a compilation yields for it.

## Main statements

* `Session.succeeds_iff` — when a message is handled without error.
* `Session.Reached.isShown_open` — what documents show after one was opened.
-/

namespace LanguageServer

open Workspace

/-! ## What is shown last -/

theorem lastSent?_append (uri : String) (l l' : List Outbound) :
    lastSent? uri (l ++ l') = (lastSent? uri l').or (lastSent? uri l) := by
  unfold lastSent?
  rw [List.reverse_append, List.findSome?_append]

theorem lastSent?_of_silent {uri : String} {l : List Outbound}
    (h : ∀ m ∈ l, m.isPublication = false) : lastSent? uri l = none := by
  refine List.findSome?_eq_none_iff.2 fun m hm => ?_
  have hsilent := h m (List.mem_reverse.1 hm)
  cases m <;> first | rfl | cases hsilent

theorem filterMap_publication?_of_aside {l : List Effect} (h : ∀ e ∈ l, e.IsAside) :
    l.filterMap Effect.publication? = [] := by
  refine List.filterMap_eq_nil_iff.2 fun e he => ?_
  have haside := h e he
  cases e <;> first | rfl | cases haside

namespace Session

open Serving

variable {γ : Type} {env : Environment} {id : ServerId} {budget : Nat} {stopped : Bool}
  {sent : List Outbound}

/-! ## Handling without error -/

/-- While a message is dispatched, an action is performed without error exactly if it succeeds and
nothing that it says is refused. -/
theorem isOk_perform_iff {α : Type} {a : Action Workspace α} {s : Session Workspace}
    (hs : s.failing = 0) (hdispatching : s.dispatching = true) :
    ((perform a).after s).1.isOk = true ↔
      (∃ x, (a.run s.host).result = .ok x) ∧
        ∀ e ∈ (a.run s.host).said.map (·.1), e.isRefused = false := by
  rw [after_perform, Run.deliver]
  rcases deliverAll_dispatching hs hdispatching (a.run s.host).said with
    ⟨hnone, hheard⟩ | ⟨entry, hentry, hrefused, f, hstop⟩
  · have hall : ∀ e ∈ (a.run s.host).said.map (·.1), e.isRefused = false := fun e he => by
      obtain ⟨entry, hentry, rfl⟩ := List.mem_map.1 he
      exact hheard entry hentry
    cases hd : deliverAll hear s (a.run s.host).said with
    | mk t stop =>
      obtain rfl : stop = none := by rw [← hnone, hd]
      cases hresult : (a.run s.host).result with
      | error f => exact iff_of_false Bool.false_ne_true fun h => absurd h.1 (by simp)
      | ok x => exact iff_of_true rfl ⟨⟨x, rfl⟩, hall⟩
  · cases hd : deliverAll hear s (a.run s.host).said with
    | mk t stop =>
      obtain rfl : stop = some (f, entry.2) := by rw [← hstop, hd]
      refine iff_of_false Bool.false_ne_true fun h => ?_
      rw [h.2 _ (List.mem_map_of_mem hentry)] at hrefused
      cases hrefused

/-- A message is handled without error exactly if what it asks for succeeds and nothing that this
says is refused. -/
theorem succeeds_iff {s : Session Workspace} (hs : s.failing = 0) {v : Json} {m : Method}
    (hv : handled? s v = some m) (hm : m.isDelegated = true) {a : Action Workspace Json}
    (ha : deed? (.ofCompiler env id) m (paramsOf v) = some a) :
    succeeds (.ofCompiler env id) s v = true ↔
      (∃ x, (a.run s.host).result = .ok x) ∧
        ∀ e ∈ (a.run s.host).said.map (·.1), e.isRefused = false := by
  obtain ⟨hl, hmethod⟩ := handled?_eq_some hv
  simp only [succeeds, hmethod]
  rw [dispatch_initialised _ (s := s.begun _ _ _) hl hm]
  rcases handle_delegated (.ofCompiler env id) hm (paramsOf v) with ⟨a', ha', hsame⟩ | ⟨hnone, -⟩
  · obtain rfl := Option.some.inj (ha.symm.trans ha')
    rw [hsame]
    exact isOk_perform_iff (s := s.begun _ _ _) hs rfl
  · rw [ha] at hnone
    cases hnone

/-- A message that is handled without error has the effect of what it asks for, and all that this
publishes is sent behind everything else. -/
theorem outbox_of_succeeds {s s' : Session Workspace} (hs : s.failing = 0) (hidle : s.IsIdle) {v : Json}
    {m : Method} (hv : handled? s v = some m) (hm : m.isDelegated = true)
    (hstep : step (.ofCompiler env id) (.arrival (.message v)) s = .ok () s')
    (hsucceeds : succeeds (.ofCompiler env id) s v = true) :
    ∃ a x front, deed? (.ofCompiler env id) m (paramsOf v) = some a ∧
      (a.run s.host).result = .ok x ∧ s'.host = (a.run s.host).state ∧
      s'.outbox = s.outbox ++ front ++
        ((a.run s.host).said.map (·.1)).filterMap Effect.publication? ∧
      ∀ m ∈ front, m.isPublication = false := by
  obtain ⟨a, x, ha, hresult, hhost⟩ := host_of_succeeds hv hm hstep hsucceeds
  obtain ⟨hl, hmethod⟩ := handled?_eq_some hv
  obtain ⟨t, remarks, y, hreceive, -, -, houtbox, hremarks⟩ :=
    receive_handled (spareChannel_ofCompiler env id) hs hidle hmethod
  obtain rfl : t = s' := by
    have heq := hreceive.symm.trans hstep
    injection heq
  have hheard : heard (.ofCompiler env id) s v = (a.run s.host).said.map (·.1) := by
    have hadmits : admits s.lifecycle m.name = true := by
      rw [hl]
      cases m <;> first | rfl | cases hm
    simp only [heard, hmethod, Session.remarks, hadmits, if_true, m.ofName?_name]
    cases m <;> first | (simp only [remarksFor, ha]; done) | cases hm
  have hspoken : ∀ e ∈ (a.run s.host).said.map (·.1), e.isRefused = false :=
    ((succeeds_iff hs hv hm ha).1 hsucceeds).2
  refine ⟨a, x, remarks ++ response (v.field? "id") m.name y, ha, hresult, hhost, ?_, fun m hm => ?_⟩
  · rw [houtbox, hheard, publications_eq hspoken]
  · rcases List.mem_append.1 hm with hm | hm
    · exact Outbound.isPublication_of_isRemark (hremarks m hm)
    · exact (countP_isResponse_response _ _).2 m hm

/-! ## Opening a document -/

/-- What was last shown for a document is what a compilation yields for it. -/
def IsShown (env : Environment) (sent : List Outbound) (ws : Workspace) (uri : String) : Prop :=
  ((compiledDiagnostics env uri).run ws).result = .ok ((lastSent? uri sent).getD [])

/-- A message that opens a document has what is compiled published for it, behind everything else, and
for no other. -/
theorem outbox_of_opens {s s' : Session Workspace} (hs : s.failing = 0) (hidle : s.IsIdle) {v : Json}
    (hv : handled? s v = some .didOpen) {d : Params.Opened}
    (hd : Params.opened? (paramsOf v) = some d)
    (hstep : step (.ofCompiler env id) (.arrival (.message v)) s = .ok () s')
    (hsucceeds : succeeds (.ofCompiler env id) s v = true) :
    ∃ ws₁, ws₁ = { s.host with
        store := s.host.store.track d.uri d.language (some d.version) d.content } ∧
      SameTask ws₁ s'.host ∧
      ∃ front diagnostics, ((compiledDiagnostics env d.uri).run ws₁).result = .ok diagnostics ∧
        s'.outbox = s.outbox ++ front ++ [.publish d.uri (some d.version) diagnostics] ∧
        ∀ m ∈ front, m.isPublication = false := by
  obtain ⟨a, x, front, ha, hresult, hhost, hsent, hfront⟩ :=
    outbox_of_succeeds hs hidle hv rfl hstep hsucceeds
  simp only [deed?, hd, Option.map_some, Option.some.injEq] at ha
  subst ha
  obtain ⟨⟨⟩, hopened, -, hsaid, hstate⟩ := Action.run_bind_eq_ok hresult
  obtain ⟨ws₁, hws₁, htask, asides, diagnostics, hcompiled, hpublished, hasides⟩ :=
    openDocument_eq_ok hopened
  refine ⟨ws₁, hws₁, (hhost.trans hstate) ▸ htask, front, diagnostics, hcompiled, ?_, hfront⟩
  rw [hsent, hsaid.trans (List.append_nil _),
    show (Capabilities.ofCompiler env id).documentOpened d = openDocument env d from rfl, hpublished,
    List.filterMap_append, filterMap_publication?_of_aside hasides]
  rfl

/-- A message that opens a document has what is compiled shown in it, and in no other. -/
theorem opens_of_succeeds {s s' : Session Workspace} (hs : s.failing = 0) (hidle : s.IsIdle)
    (houtbox : s.outbox = []) {v : Json} (hv : handled? s v = some .didOpen) {d : Params.Opened}
    (hd : Params.opened? (paramsOf v) = some d)
    (hstep : step (.ofCompiler env id) (.arrival (.message v)) s = .ok () s')
    (hsucceeds : succeeds (.ofCompiler env id) s v = true) :
    ∃ ws₁, ws₁ = { s.host with
        store := s.host.store.track d.uri d.language (some d.version) d.content } ∧
      SameTask ws₁ s'.host ∧
      ∃ diagnostics, ((compiledDiagnostics env d.uri).run ws₁).result = .ok diagnostics ∧
        ∀ uri, lastSent? uri s'.outbox = if d.uri = uri then some diagnostics else none := by
  obtain ⟨ws₁, hws₁, htask, front, diagnostics, hcompiled, hsent, hfront⟩ :=
    outbox_of_opens hs hidle hv hd hstep hsucceeds
  refine ⟨ws₁, hws₁, htask, diagnostics, hcompiled, fun uri => ?_⟩
  rw [hsent, houtbox, lastSent?_append, lastSent?_of_silent (l := [] ++ front) hfront,
    Option.or_none]
  show (List.findSome? _ [Outbound.publish d.uri (some d.version) diagnostics].reverse) = _
  simp [Outbound.shown?]

/-- What documents show when one was opened.  If a message that opens a document is handled without
error, then the document shows what a compilation of all tracked texts yields for it.  Any other open
document that showed what a compilation yields for it still does, if the opening does not reach it: it
does not lead to the opened document; there is no source without a name; and nothing that is found in
other sources is shown in it. -/
theorem Reached.isShown_open {files : FileSystem} {reporter : String} {s s' : Session Workspace}
    (h : Reached (Toy.environment files budget reporter) id stopped sent s) {v : Json}
    (hv : handled? s.cleared v = some .didOpen) {d : Params.Opened}
    (hd : Params.opened? (paramsOf v) = some d)
    (hstep : Session.step (.ofCompiler (Toy.environment files budget reporter) id)
      (.arrival (.message v)) s.cleared = .ok () s')
    (hsucceeds : succeeds (.ofCompiler (Toy.environment files budget reporter) id) s.cleared v = true)
    {uri : String} (hopen : uri ∈ s'.host.store.openUris)
    (hspared : uri = d.uri ∨ IsShown (Toy.environment files budget reporter) sent s.host uri ∧
      Spares (Toy.environment files budget reporter) d.uri uri s.host s'.host) :
    IsShown (Toy.environment files budget reporter) (sent ++ s'.outbox) s'.host uri := by
  have henv : (Toy.environment files budget reporter).IsToy budget := fun _ => rfl
  generalize Toy.environment files budget reporter = env at h hstep hsucceeds hspared henv ⊢
  have hheld := h.isHeld henv
  obtain ⟨ws₁, hws₁, htask, diagnostics, hcompiled, hsent⟩ :=
    opens_of_succeeds (s := s.cleared) hheld.working ⟨hheld.quiet.dispatching, hheld.quiet.deferred⟩
      rfl hv hd hstep hsucceeds
  have hsame (uri : String) := compiledDiagnostics_congr henv.isUniform htask uri
  unfold IsShown
  rw [lastSent?_append, hsent]
  by_cases heq : d.uri = uri
  · subst heq
    rw [if_pos rfl, hsame, hcompiled]
    rfl
  · obtain ⟨hshown, hspares⟩ := hspared.resolve_left (Ne.symm heq)
    obtain ⟨k, hlearn⟩ := exists_learn_of_compiledDiagnostics hshown
    obtain ⟨k', hlearn'⟩ := exists_learn_of_compiledDiagnostics hcompiled
    have hstore : s'.host.store =
        s.host.store.track d.uri d.language (some d.version) d.content := by
      rw [htask.store, hws₁]
      rfl
    have hbefore : uri ∈ s.host.store.openUris := by
      rw [hstore] at hopen
      exact (DocumentStore.mem_openUris_of_track hopen).resolve_left (Ne.symm heq)
    rw [if_neg heq, Option.none_or]
    refine (compiledDiagnostics_track henv hheld.kept.formed hstore ?_ ?_ hbefore hlearn
      ((learn_congr henv.isUniform htask).trans hlearn') hspares).trans hshown
    · rw [htask.configuration, hws₁]
      rfl
    · rw [htask.base, hws₁]
      rfl

/-- A document with a mistake imports another one; a third one is about to be opened. -/
def unreachedImport : List Json :=
  [requestOf 1 .initialise (.obj []), opening "l" "var f = 1;", opening "u" "import \"l\";\nf;\ng;"]

/-- A document with a mistake goes on showing it when one is opened that it does not import. -/
theorem Reached.isShown_open_unreachedImport :
    ∃ sent s s', Reached loneEnvironment ⟨"toy", none⟩ false sent s ∧
      Session.step loneCapabilities (.arrival (.message (opening "w" "var g = 2;"))) s.cleared =
        .ok () s' ∧
      ((lastSent? "u" sent).map fun shown => shown.length) = some 1 ∧
      IsShown loneEnvironment sent s.host "u" ∧
      IsShown loneEnvironment (sent ++ s'.outbox) s'.host "u" := by
  have hreached : Reached loneEnvironment ⟨"toy", none⟩
      (stopsAll loneCapabilities _ false unreachedImport) _ _ :=
    Reached.start.afterAll (by decide +kernel)
  have hcalm : stopsAll loneCapabilities { host := .empty } false unreachedImport = false := by
    decide +kernel
  rw [hcalm] at hreached
  have hshown : IsShown loneEnvironment
      ([] ++ sentAll loneCapabilities { host := .empty } unreachedImport)
      (Session.afterAll loneCapabilities { host := .empty } unreachedImport).host "u" := by
    unfold IsShown
    decide +kernel
  refine ⟨_, _, _, hreached, step_of_isOk (by decide +kernel), by decide +kernel, hshown, ?_⟩
  exact hreached.isShown_open (v := opening "w" "var g = 2;") (by decide +kernel)
    (d := ⟨"w", .str "toy", 1, "var g = 2;"⟩) rfl (step_of_isOk (by decide +kernel))
    (by decide +kernel) (by decide +kernel) (.inr ⟨hshown, fun name hname => by
      have hown : sourceNameFor "w" = .ok "w" := by decide +kernel
      obtain rfl : "w" = name := Except.ok.inj (hown.symm.trans hname)
      decide +kernel, by decide +kernel, by decide +kernel, by decide +kernel, by decide +kernel⟩)

end Session

end LanguageServer
