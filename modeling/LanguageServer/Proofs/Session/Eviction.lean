import LanguageServer.Proofs.Session.Reached
import LanguageServer.Proofs.Workspace.Closing

/-!
# Evictions cannot be seen

When a document is closed, those that no open document needs are evicted.  Documents that
are still open look the same afterwards: definitions, highlights and diagnostics are those
from right before the eviction, when the document was only marked closed.

This relies on the latest program being one of the documents; while compiling is stopped, a
document may be evicted that was imported since.

## Main statements

* `Session.Reached.looksSame` — an open document looks the same before and after an eviction.
-/

namespace LanguageServer

open Workspace

namespace Session

variable {env : Environment} {id : ServerId} {budget : Nat} {sent : List Outbound}

/-- What a message that closes a document does, if it is handled without error. -/
theorem closes_of_succeeds {s s' : Session Workspace} {v : Json} (hv : handled? s v = some .didClose)
    {target : String} (htarget : Params.documentUri? (paramsOf v) = some target)
    (hstep : step (.ofCompiler env id) (.arrival (.message v)) s = .ok () s')
    (hsucceeds : succeeds (.ofCompiler env id) s v = true) :
    ((closeDocument target).run s.host).result = .ok () ∧
      s'.host = ((closeDocument target).run s.host).state := by
  obtain ⟨a, x, ha, hresult, hhost⟩ := host_of_succeeds hv rfl hstep hsucceeds
  simp only [deed?, htarget, Option.map_some, Option.some.injEq] at ha
  subst ha
  obtain ⟨⟨⟩, hclosed, -, -, hstate⟩ := Action.run_bind_eq_ok hresult
  exact ⟨hclosed, hhost.trans hstate⟩

/-- Evictions cannot be seen.  If a message that closes a document is handled without error, then every
document that is still open looks the same right before the eviction, when the other one was only
marked closed, and after it: at every position the definition and the highlights are the same, and so
are the diagnostics that a compilation yields for it.  Compiling must not be stopped, and a source
without a name that was compiled before must be compiled after; as for diagnostics, what is found in
other sources must not be shown in the document. -/
theorem Reached.looksSame {files : FileSystem} {reporter : String} {s s' : Session Workspace}
    (h : Reached (Toy.environment files budget reporter) id false sent s) {v : Json}
    (hv : handled? s.cleared v = some .didClose) {target : String}
    (htarget : Params.documentUri? (paramsOf v) = some target)
    (hstep : Session.step (.ofCompiler (Toy.environment files budget reporter) id)
      (.arrival (.message v)) s.cleared = .ok () s')
    (hsucceeds : succeeds (.ofCompiler (Toy.environment files budget reporter) id) s.cleared v = true)
    (hnameless : (s.host.markClosed target).compiles (Toy.environment files budget reporter) "" = true →
      s'.host.compiles (Toy.environment files budget reporter) "" = true)
    {uri : String} (hopen : uri ∈ s'.host.store.openUris) :
    LooksSame (Toy.environment files budget reporter) uri (s.host.markClosed target) s'.host := by
  have henv : (Toy.environment files budget reporter).IsToy budget := fun _ => rfl
  obtain ⟨hclosed, hhost⟩ := closes_of_succeeds hv htarget hstep hsucceeds
  rw [hhost] at hopen hnameless ⊢
  exact looksSame_closeDocument henv ((h.isHeld henv).settled rfl) hclosed hopen hnameless

/-- What is imported stays, and what is not goes, when both are closed. -/
def closedImports : List Json :=
  [requestOf 1 .initialise (.obj []), opening "l" "var f = 1;", opening "w" "var g = 2;",
    opening "u" "import \"l\";\nf;\ng;", closing "l"]

/-- A document with a mistake looks the same when another document is evicted. -/
theorem Reached.looksSame_closedImports :
    ∃ sent s s', Reached loneEnvironment ⟨"toy", none⟩ false sent s ∧
      Session.step loneCapabilities (.arrival (.message (closing "w"))) s.cleared = .ok () s' ∧
      s.host.store.toList.map (·.uri) = ["l", "w", "u"] ∧
      s'.host.store.toList.map (·.uri) = ["l", "u"] ∧
      LooksSame loneEnvironment "u" (s.host.markClosed "w") s'.host := by
  have hreached : Reached loneEnvironment ⟨"toy", none⟩ (stopsAll loneCapabilities _ false closedImports)
      _ _ := Reached.start.afterAll (by decide +kernel)
  have hcalm : stopsAll loneCapabilities { host := .empty } false closedImports = false := by
    decide +kernel
  rw [hcalm] at hreached
  refine ⟨_, _, _, hreached, step_of_isOk (by decide +kernel), by decide +kernel, by decide +kernel, ?_⟩
  exact hreached.looksSame (v := closing "w") (by decide +kernel) (by decide +kernel)
    (step_of_isOk (by decide +kernel)) (by decide +kernel)
    (fun hnameless => absurd hnameless (by decide +kernel)) (by decide +kernel)

/-! ## What is in the way -/

/-- Whether no message opens a document in vain or without a URI. -/
def opensWell {γ : Type} (caps : Capabilities γ) (s : Session γ) : List Json → Bool
  | [] => true
  | v :: rest =>
    (handled? s.cleared v != some .didOpen ||
        succeeds caps s.cleared v && Params.documentUri? (paramsOf v) != some "") &&
      opensWell caps ((step caps (.arrival (.message v))).after s.cleared).2 rest

/-- Evictions cannot be seen, as far as some condition holds of the environment, of whether compiling is
stopped, of the workspaces before and after the eviction, and of the open document. -/
def HidesEvictions (P : Environment → Bool → Workspace → Workspace → String → Prop) : Prop :=
  ∀ (files : FileSystem) (budget : Nat) (reporter : String) (id : ServerId) (l : List Json)
    (target uri : String),
    let env := Toy.environment files budget reporter
    let caps := Capabilities.ofCompiler env id
    let s := afterAll caps { host := .empty } l
    let s' := afterAll caps s [closing target]
    goesOn caps { host := .empty } (l ++ [closing target]) = true →
    opensWell caps { host := .empty } l = true →
    succeeds caps s.cleared (closing target) = true →
    uri ∈ s'.host.store.openUris →
    P env (stopsAll caps { host := .empty } false l) (s.host.markClosed target) s'.host uri →
    (∀ p, ((query env Navigation.definition uri p).run s'.host).result =
        ((query env Navigation.definition uri p).run (s.host.markClosed target)).result) ∧
      (∀ p, ((query env Navigation.highlights uri p).run s'.host).result =
        ((query env Navigation.highlights uri p).run (s.host.markClosed target)).result) ∧
      ((compiledDiagnostics env uri).run s'.host).result =
        ((compiledDiagnostics env uri).run (s.host.markClosed target)).result

theorem HidesEvictions.mono {P Q : Environment → Bool → Workspace → Workspace → String → Prop}
    (h : HidesEvictions P) (hPQ : ∀ env stopped ws ws' uri, Q env stopped ws ws' uri →
      P env stopped ws ws' uri) : HidesEvictions Q := by
  intro files budget reporter id l target uri env caps s s' hgoes hwell hsucceeds hopen hQ
  exact h files budget reporter id l target uri hgoes hwell hsucceeds hopen (hPQ _ _ _ _ _ hQ)

/-- The number of diagnostics, if there is no fault. -/
def countOf (r : Except Fault (List Diagnostic)) : Option Nat := r.toOption.map (·.length)

/-- A file system with one file. -/
def oneFile (path : List String) (text : String) : FileSystem :=
  { FileSystem.empty [] with files := ⟨[(path, text.toList.map fun c => UInt8.ofNat c.toNat)]⟩ }

/-- The request to begin with a root. -/
def rooted (uri : String) : Json := requestOf 1 .initialise (.obj [("rootUri", .str uri)])

/-- Compiling is stopped by the path of an import, and while it is, a document begins to import another
one. -/
def stoppedImports : List Json :=
  [requestOf 1 .initialise (.obj []), opening "a" "", opening "b" "", opening "c" "",
    changing "c" 2 "import \"/\x00\";", changing "a" 2 "import \"b\";", closing "c"]

/-- A source without a name is read, as the root is a file; a document that imports nothing sees what is
declared there. -/
def namelessImport : List Json :=
  [rooted "file:///f", opening "u" "import \"\";", opening "t" "x;"]

/-- A file with a mistake is imported by a path that is not absolute, and its mistake is shown in the
document that has this path. -/
def mixedImport : List Json :=
  [rooted "file:///w", opening "file:///a" "", opening "t" "import \"a\";"]

/-- Evictions can be seen, and each condition is needed to hide them: that compiling is not stopped, that
no source without a name vanishes, and that nothing of another source is shown in the document. -/
theorem not_hidesEvictions :
    ¬ HidesEvictions (fun _ _ _ _ _ => True) ∧
    ¬ HidesEvictions (fun env _ ws ws' uri =>
      (ws.compiles env "" = true → ws'.compiles env "" = true) ∧ ws.keepsApart env uri = true) ∧
    ¬ HidesEvictions (fun env stopped ws _ uri => stopped = false ∧ ws.keepsApart env uri = true) ∧
    ¬ HidesEvictions (fun env stopped ws ws' _ =>
      stopped = false ∧ (ws.compiles env "" = true → ws'.compiles env "" = true)) := by
  have hstopped : ¬ HidesEvictions (fun env _ ws ws' uri =>
      (ws.compiles env "" = true → ws'.compiles env "" = true) ∧ ws.keepsApart env uri = true) := by
    intro h
    have hsame := (h (.empty []) 10 "toy" ⟨"toy", none⟩ stoppedImports "b" "a" (by decide +kernel)
      (by decide +kernel) (by decide +kernel) (by decide +kernel) (by decide +kernel)).2.2
    exact absurd (congrArg countOf hsame) (by decide +kernel)
  refine ⟨fun h => hstopped (h.mono fun _ _ _ _ _ _ => trivial), hstopped, fun h => ?_, fun h => ?_⟩
  · have hsame := (h (oneFile ["f"] "var x = 1;") 10 "toy" ⟨"toy", none⟩ namelessImport "u" "t"
      (by decide +kernel) (by decide +kernel) (by decide +kernel) (by decide +kernel)
      (by decide +kernel)).2.2
    exact absurd (congrArg countOf hsame) (by decide +kernel)
  · have hsame := (h (oneFile ["w", "a"] "f;") 10 "toy" ⟨"toy", none⟩ mixedImport "t" "file:///a"
      (by decide +kernel) (by decide +kernel) (by decide +kernel) (by decide +kernel)
      (by decide +kernel)).2.2
    exact absurd (congrArg countOf hsame) (by decide +kernel)

end Session

end LanguageServer
