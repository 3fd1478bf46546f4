import LanguageServer.Proofs.Session.Eviction
import LanguageServer.Proofs.Session.Isolation
import LanguageServer.Proofs.Workspace.Copies

/-!
# Opening a file that others import

A client may open a file that a compilation has read before, and send the text of the file.  The
server compiles then, but publishes diagnostics of this document only: it relies on the others
showing the same as before.  They do, if the text has no carriage return that stands alone.

## Main statements

* `Session.tracks_of_opens` — a message that opens a document has it tracked, whatever else happens.
* `Session.Reached.shownAlike_copy` — what is shown of all documents after a file was opened.
* `Session.not_shownAlike_copy_lone` — a carriage return that stands alone is seen.
-/

namespace LanguageServer

open Workspace

namespace Workspace

variable {env : Environment} {ws ws' : Workspace}

/-! ## The task after a document was opened -/

theorem Discreet.sameTask {α : Type} {a : Action Workspace α} (ha : Discreet a) (ws : Workspace) :
    a.Steady (fun _ => True) (SameTask ws) := fun ws' h =>
  ⟨fun entry hentry _ => h.trans ((ha ws').1 entry hentry).2.sameTask, h.trans (ha ws').2.sameTask⟩

theorem sameTask_validate (env : Environment) (uri : String) (ws : Workspace) :
    (validate env uri).Steady (fun _ => True) (SameTask ws) :=
  .bind .state fun _ => .bind (.ofExcept _ _) fun _ => .bind ((discreet_compile env).sameTask ws)
    fun _ => .bind ((discreet_diagnosticsByUri env _).sameTask ws) fun _ =>
      .bind (.say _) fun _ => .update fun _ h => h.trans ⟨rfl, rfl, rfl⟩

/-- Wherever the opening of a document stops, the document is tracked. -/
theorem leads_openDocument (env : Environment) (d : Params.Opened) (ws : Workspace) :
    (openDocument env d).Leads (fun _ => True) (· = ws) (SameTask (ws.tracking d)) := by
  refine .andThen (J := SameTask (ws.tracking d)) (.update fun ws' h => ?_)
    (fun _ => sameTask_validate env d.uri _) fun _ h => h
  exact h ▸ .refl _

/-- What a compilation shows depends on the documents and the settings only. -/
theorem ShownAlike.congr {ws₁' : Workspace} {uri : String} (henv : env.IsUniform)
    (h : ShownAlike env uri ws ws') (htask : SameTask ws' ws₁') : ShownAlike env uri ws ws₁' where
  diagnostics := by
    rw [compiledDiagnostics_congr henv htask]
    exact h.diagnostics
  ordered htracked hapart := (compiledDiagnostics_congr henv htask uri).trans (h.ordered htracked hapart)
  definition htracked p := by
    rw [← h.definition htracked p, result_definition henv, result_definition henv]
    exact reply_congr henv htask ..

/-- What is found can be shown in both, or in neither. -/
theorem isPresentable_iff_of_shownAlike {uri : String} (h : ShownAlike env uri ws ws') :
    ws'.IsPresentable env ↔ ws.IsPresentable env := by
  rw [← exists_compiledDiagnostics_iff uri, ← exists_compiledDiagnostics_iff uri]
  have hsame := h.diagnostics
  cases hx : ((compiledDiagnostics env uri).run ws).result <;>
    cases hy : ((compiledDiagnostics env uri).run ws').result <;> simp_all [SameUpToOrder]

end Workspace

theorem SameUpToOrder.countOf_eq {x y : Except Fault (List Diagnostic)} (h : SameUpToOrder x y) :
    Session.countOf x = Session.countOf y := by
  cases x <;> cases y
  · rfl
  · exact h.elim
  · exact h.elim
  · exact congrArg some (List.Perm.length_eq h)

namespace Session

open Serving

variable {env : Environment} {id : ServerId} {budget smaller : Nat} {stopped : Bool}
  {sent : List Outbound}

/-- A message that opens a document has it tracked, whether or not it is handled without error. -/
theorem tracks_of_opens {s s' : Session Workspace} {v : Json} (hv : handled? s v = some .didOpen)
    {d : Params.Opened} (hd : Params.opened? (paramsOf v) = some d)
    (hstep : step (.ofCompiler env id) (.arrival (.message v)) s = .ok () s') :
    SameTask (s.host.tracking d) s'.host := by
  have hleads : (do openDocument env d; return Json.null : Action Workspace Json).Leads (fun _ => True)
      (· = s.host) (SameTask (s.host.tracking d)) :=
    .andThen (leads_openDocument env d s.host) (fun _ => .pure _) fun _ h => h
  -- What is said may be refused, but nothing is said before the document is tracked.
  obtain ⟨hstops, hend⟩ := hleads s.host rfl
  have hdeed : deed? (.ofCompiler env id) .didOpen (paramsOf v) =
      some (do openDocument env d; return Json.null) := by
    simp only [deed?, hd, Option.map_some]
    rfl
  rcases step_handled_delegated hv rfl hstep with ⟨a, x, t, ha, hperform, hchannel, -, rfl⟩ | ⟨hnone, -⟩
  · obtain rfl := Option.some.inj (hdeed.symm.trans ha)
    have hcases := perform_cases (do openDocument env d; return Json.null)
      (s.begun Method.didOpen.name (paramsOf v) (v.field? "id").isSome)
    rw [hperform] at hcases
    rcases hcases with ⟨-, hhost⟩ | ⟨reason, hreason⟩ | ⟨entry, hmem, -, hhost, -⟩
    · exact (show t.host = _ from hhost) ▸ hend
    · exact absurd hreason (hchannel reason)
    · exact (show t.host = _ from hhost) ▸ hstops entry hmem trivial
  · cases hdeed.symm.trans hnone

/-- Files and documents agree.  In any session that can come about, let a compilation of the documents
read a source from disk, with some steps of the engine to spare.  If a message then opens the file with
the URI of its path and with the text that its bytes stand for, it is handled to its end.  A compilation
shows the same of every document as before: the same diagnostics, but for their order, and in the same
order unless findings of other sources are shown in it; and the same definitions in every document that
was tracked.  No carriage return of the text may stand alone. -/
theorem Reached.shownAlike_copy {files : FileSystem} {reporter : String} {s : Session Workspace}
    (h : Reached (Toy.environment files budget reporter) id stopped sent s) {v : Json}
    (hv : handled? s.cleared v = some .didOpen) {d : Params.Opened}
    (hd : Params.opened? (paramsOf v) = some d) (hbudget : smaller < budget)
    {said : List (Effect × Workspace)} {program : Program} {ws : Workspace}
    (hcompile : (compile (Toy.environment files smaller reporter)).run s.host = ⟨said, .ok program, ws⟩)
    {name : String} (hread : ws.readTexts.contains name = true) (hcopy : IsCopyOf files name d)
    (hpairs : Text.pairsReturns d.content.toList = true) :
    ∃ s', Session.step (.ofCompiler (Toy.environment files budget reporter) id)
        (.arrival (.message v)) s.cleared = .ok () s' ∧
      (succeeds (.ofCompiler (Toy.environment files budget reporter) id) s.cleared v = true ↔
        s.host.IsPresentable (Toy.environment files budget reporter)) ∧
      ∀ uri, ShownAlike (Toy.environment files budget reporter) uri s.host s'.host := by
  have henv : (Toy.environment files smaller reporter).IsToy smaller := fun _ => rfl
  have henv' : (Toy.environment files budget reporter).IsToy budget := fun _ => rfl
  have hfiles : (Toy.environment files budget reporter).files =
      (Toy.environment files smaller reporter).files := rfl
  have hheld := h.isHeld henv'
  have hidle : s.cleared.IsIdle := ⟨hheld.quiet.dispatching, hheld.quiet.deferred⟩
  obtain ⟨text, htext⟩ := Option.isSome_iff_exists.1 hread
  obtain ⟨k, hlearn, hreadTexts⟩ : ∃ k, s.host.learn (Toy.environment files smaller reporter) = .ok k ∧
      ws.readTexts = k.readTexts := by
    cases hlearn : s.host.learn (Toy.environment files smaller reporter) with
    | error e =>
      have hresult := (run_compile_of_learn_error hlearn).1
      rw [hcompile] at hresult
      cases hresult
    | ok k =>
      have hstate := (run_compile_of_learn hlearn).2
      rw [hcompile] at hstate
      exact ⟨k, rfl, congrArg Workspace.readTexts hstate⟩
  have halike (uri : String) :
      ShownAlike (Toy.environment files budget reporter) uri s.host (s.host.tracking d) :=
    shownAlike_tracking henv henv' hfiles hbudget hheld.kept.formed hlearn (hreadTexts ▸ htext) hcopy
      hpairs uri
  obtain ⟨s', hstep⟩ := exists_step (Toy.environment files budget reporter) id (s := s.cleared)
    hheld.working hidle v
  have hsucceeds := (publishes_of_opens (s := s.cleared) hheld.working hidle rfl hv hd hstep).1
  exact ⟨s', hstep, hsucceeds.trans (isPresentable_iff_of_shownAlike (halike d.uri)),
    fun uri => (halike uri).congr henv'.isUniform (tracks_of_opens hv hd hstep)⟩

/-- An environment with one file. -/
def fileEnvironment (text : String) (budget : Nat) : Environment :=
  Toy.environment { FileSystem.empty [] with
    files := ⟨[(["w", "lib.toy"], Text.encodeUtf8 text.toList)]⟩ } budget "toy"

theorem isCopyOf_fileEnvironment (text : String) (budget : Nat) :
    IsCopyOf (fileEnvironment text budget).files "/w/lib.toy"
      ⟨"file:///w/lib.toy", .str "toy", 1, text⟩ := by
  have hname : "/w/lib.toy" = String.ofList ('/' :: "w/lib.toy".toList) := by decide
  have huri : "file:///w/lib.toy".toList = "file:///".toList ++ "w/lib.toy".toList := by decide
  exact .of_isPlain hname huri (List.all_eq_true.1 (by decide)) (by decide)
    ⟨⟨.root, ["w", "lib.toy"]⟩, Text.encodeUtf8 text.toList, rfl, rfl, Text.decodeUtf8?_encodeUtf8 _⟩

/-- The capabilities of a server that has the file. -/
def fileCapabilities (text : String) : Capabilities Workspace :=
  .ofCompiler (fileEnvironment text 11) ⟨"toy", none⟩

/-- A document imports the file and uses it. -/
def importing (uses : String) : List Json :=
  [rooted "file:///w", opening "file:///w/a.toy" ("import \"/w/lib.toy\";\nf;" ++ uses)]

/-- A text in which each line ends with a carriage return and a line feed, with other characters than
those of ASCII in a comment and in a string, and with a mistake. -/
def pairedText : String := "// t\u00eate\r\nvar f = 1;\r\nvar s = \"\u20ac\";\r\nh;\r\n"

/-- The file is opened, and the document shows its mistake as before. -/
theorem Reached.shownAlike_copy_paired :
    ∃ sent s s', Reached (fileEnvironment pairedText 11) ⟨"toy", none⟩ false sent s ∧
      Session.step (fileCapabilities pairedText)
        (.arrival (.message (opening "file:///w/lib.toy" pairedText))) s.cleared = .ok () s' ∧
      countOf ((compiledDiagnostics (fileEnvironment pairedText 11) "file:///w/a.toy").run
        s.host).result = some 1 ∧
      ∀ uri, ShownAlike (fileEnvironment pairedText 11) uri s.host s'.host := by
  have hreached : Reached (fileEnvironment pairedText 11) ⟨"toy", none⟩
      (stopsAll (fileCapabilities pairedText) _ false (importing "g;")) _
      (Session.afterAll (fileCapabilities pairedText) { host := .empty } (importing "g;")) :=
    Reached.start.afterAll (by decide +kernel)
  have hcalm : stopsAll (fileCapabilities pairedText) { host := .empty } false (importing "g;") =
      false := by
    decide +kernel
  rw [hcalm] at hreached
  obtain ⟨s, hs⟩ : ∃ s, s = Session.afterAll (fileCapabilities pairedText) { host := .empty }
      (importing "g;") := ⟨_, rfl⟩
  rw [← hs] at hreached
  have hcount : countOf ((compiledDiagnostics (fileEnvironment pairedText 11) "file:///w/a.toy").run
      s.host).result = some 1 := by
    rw [hs]
    decide +kernel
  have hv : handled? s.cleared (opening "file:///w/lib.toy" pairedText) = some .didOpen := by
    rw [hs]
    decide +kernel
  have hread : ((compile (fileEnvironment pairedText 10)).run s.host).result.isOk = true ∧
      ((compile (fileEnvironment pairedText 10)).run s.host).state.readTexts.contains "/w/lib.toy" =
        true := by
    rw [hs]
    decide +kernel
  cases hrun : (compile (fileEnvironment pairedText 10)).run s.host with
  | mk said result ws =>
    rw [hrun] at hread
    cases result with
    | error f => cases hread.1
    | ok program =>
      obtain ⟨s', hstep, -, halike⟩ := hreached.shownAlike_copy hv rfl (by decide) hrun hread.2
        (isCopyOf_fileEnvironment pairedText 11) (by decide +kernel)
      exact ⟨_, s, s', hreached, hstep, hcount, halike⟩

/-- A text with a carriage return that stands alone behind a comment. -/
def loneText : String := "// c\rvar f = 1;\n"

/-- In the file the carriage return ends the comment, but in the document it does not: what the file
declares is gone for the other document when the file is opened. -/
theorem not_shownAlike_copy_lone :
    ∃ s s', s = Session.afterAll (fileCapabilities loneText) { host := .empty } (importing "") ∧
      Session.step (fileCapabilities loneText)
        (.arrival (.message (opening "file:///w/lib.toy" loneText))) s.cleared = .ok () s' ∧
      IsCopyOf (fileEnvironment loneText 11).files "/w/lib.toy"
        ⟨"file:///w/lib.toy", .str "toy", 1, loneText⟩ ∧
      ¬ ShownAlike (fileEnvironment loneText 11) "file:///w/a.toy" s.host s'.host := by
  obtain ⟨s, hs⟩ : ∃ s, s = Session.afterAll (fileCapabilities loneText) { host := .empty }
      (importing "") := ⟨_, rfl⟩
  have hok : ((Session.step (fileCapabilities loneText)
      (.arrival (.message (opening "file:///w/lib.toy" loneText)))).after s.cleared).1.isOk = true := by
    rw [hs]
    decide +kernel
  have hstep := step_of_isOk hok
  obtain ⟨s', hs'⟩ : ∃ s', s' = ((Session.step (fileCapabilities loneText)
      (.arrival (.message (opening "file:///w/lib.toy" loneText)))).after s.cleared).2 := ⟨_, rfl⟩
  have hdiffer : countOf ((compiledDiagnostics (fileEnvironment loneText 11) "file:///w/a.toy").run
        s.host).result ≠
      countOf ((compiledDiagnostics (fileEnvironment loneText 11) "file:///w/a.toy").run
        s'.host).result := by
    rw [hs', hs]
    decide +kernel
  rw [← hs'] at hstep
  exact ⟨s, s', hs, hstep, isCopyOf_fileEnvironment loneText 11,
    fun h => hdiffer h.diagnostics.countOf_eq⟩

end Session

end LanguageServer
