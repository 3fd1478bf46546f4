import LanguageServer.Proofs.Files.Resolution
import LanguageServer.Proofs.Workspace.Knowledge
import LanguageServer.Toy.Engine

/-!
# Reading stays inside the allowed directories

A source that is on disk is served only if it lies in the workspace root or in an include
path.  What counts is the file that is read in the end, not the path by which the engine
asks for it: links are followed before the directories are compared, and components are
compared as a whole.

All this rests on resolving, which has to yield a path without links.  A link that leads
back to itself cannot be followed; behind it steps back are taken without looking, and the
path may lead through another link out of the directories.

## Main definitions

* `Workspace.IsReadAt` — the file that a source is read from.
* `Workspace.IsAllowed` — a file lies in an allowed directory.

## Main statements

* `Workspace.readDisk_eq_ok` — when a source on disk is served.
* `Workspace.isAllowed_of_inquire` — what an engine is served lies in an allowed directory.
-/

namespace LanguageServer.Workspace

open Text

variable {files : FileSystem} {env : Environment} {ws : Workspace} {path text : String}

/-- The source at `path` is read from the file at `place`: the path that is opened leads there, and
the text is that of this file. -/
structure IsReadAt (files : FileSystem) (ws : Workspace) (path text : String) (place : Path) :
    Prop where
  opened : ∃ p, ws.locate path = .ok p ∧ place = files.resolve (files.resolve p)
  canonical : files.IsCanonical place
  held : ∃ bytes characters, files.files.find? place.parts = some bytes ∧
    decodeUtf8? bytes = some characters ∧ text = String.ofList (normaliseNewlines characters)

/-- A file is an allowed directory or lies below one, if links to the directory are followed. -/
def IsAllowed (files : FileSystem) (ws : Workspace) (place : Path) : Prop :=
  ∃ dir ∈ ws.allowedDirectories, place.isWithin (files.resolve dir) = true

/-- A source is served from disk if its resolved path may be read and a text can be read there. -/
theorem readDisk_eq_ok (h : readDisk files ws path = .ok (.ok text)) :
    ∃ p, ws.locate path = .ok p ∧ files.resolve? p = .ok (files.resolve p) ∧
      ws.mayRead (files.resolve p) = true ∧ files.readText (files.resolve p) = .ok text := by
  unfold readDisk at h
  cases hlocate : ws.locate path with
  | error failure => simp [hlocate] at h
  | ok p =>
    simp only [hlocate, FileSystem.resolve?] at h
    by_cases hnul : p.hasNul = true
    · simp [hnul, bind, Except.bind] at h
    · simp only [hnul, bind, Except.bind] at h
      by_cases hmay : ws.mayRead (files.resolve p) = true
      · cases hread : files.readText (files.resolve p) with
        | error cause => simp [hmay, hread, pure, Except.pure] at h
        | ok text' =>
          simp only [hmay, hread, pure, Except.pure, if_true, Bool.false_eq_true, if_false,
            Except.ok.injEq] at h
          exact ⟨p, rfl, if_neg hnul, hmay, h ▸ hread⟩
      · simp [hmay, pure, Except.pure] at h

/-- If there are directories from which sources may be read, a canonical path that may be read lies
in one of them. -/
theorem isAllowed_of_mayRead (hdirs : ws.allowedDirectories ≠ []) {place : Path}
    (hcanonical : files.IsCanonical place) (h : ws.mayRead place = true) :
    IsAllowed files ws place := by
  unfold mayRead at h
  rw [Bool.or_eq_true, List.isEmpty_iff, or_iff_right hdirs, List.any_eq_true] at h
  obtain ⟨dir, hdir, hwithin⟩ := h
  -- The directory lies above a canonical path, so it has no link on its way either.
  refine ⟨dir, hdir, ?_⟩
  rw [FileSystem.resolve_of_isCanonical (hcanonical.of_isWithin hwithin)]
  exact hwithin

/-- A source that is served from disk is read from a file in an allowed directory. -/
theorem isAllowed_of_readDisk (hdirs : ws.allowedDirectories ≠ [])
    (h : readDisk files ws path = .ok (.ok text))
    (hresolve : ∀ p, ws.locate path = .ok p → files.IsCanonical (files.resolve p)) :
    ∃ place, IsReadAt files ws path text place ∧ IsAllowed files ws place := by
  obtain ⟨p, hlocate, -, hmay, hread⟩ := readDisk_eq_ok h
  have hcanonical := hresolve p hlocate
  obtain ⟨hplace, hheld⟩ := FileSystem.readText_eq_ok hread
  refine ⟨files.resolve (files.resolve p), ⟨⟨p, hlocate, rfl⟩, hplace, hheld⟩, ?_⟩
  rw [FileSystem.resolve_of_isCanonical hcanonical]
  exact isAllowed_of_mayRead hdirs hcanonical hmay

/-- Reading is confined.  Whatever the files and links are, and by whatever paths an engine asks for
sources during a compilation: if it is served a text that it was not handed, this is the text of a
file that is an allowed directory or lies below one, by whole components and with all links
followed.  There must be such directories, and resolving the path must have yielded one without
links. -/
theorem isAllowed_of_inquire {sources : Table String String} {x : Exchange}
    (hdirs : ws.allowedDirectories ≠ []) (hasked : x ∈ (ws.inquire env sources).1)
    (huntracked : sources.find? x.path = none) (hserved : x.outcome = .ok text)
    (hresolve : ∀ p, ws.locate x.path = .ok p → env.files.IsCanonical (env.files.resolve p)) :
    ∃ place, IsReadAt env.files ws x.path text place ∧ IsAllowed env.files ws place := by
  have hanswer := Compiling.answer_of_mem_converse hasked
  unfold answer at hanswer
  rw [hserved] at hanswer
  split at hanswer
  · simp at hanswer
  · simp only [huntracked] at hanswer
    cases hread : readDisk env.files ws x.path with
    | error e => simp [hread] at hanswer
    | ok outcome =>
      simp only [hread, Except.ok.injEq] at hanswer
      exact isAllowed_of_readDisk hdirs (hanswer ▸ hread) hresolve

/-- Files inside and outside of a workspace, with links from the workspace to both. -/
def linkedFiles : FileSystem where
  files := .ofList [(["lib", "a.toy"], encodeUtf8 "var a;\r\n".toList),
    (["etc", "b.toy"], encodeUtf8 "var b;".toList)]
  links := .ofList [(["w", "in"], .ofString "../lib"), (["w", "out"], .ofString "/etc")]
  workingDirectory := []

/-- The toy engine over these files. -/
def linkedEnvironment : Environment := ⟨linkedFiles, fun _ => Toy.engine 2, "toy"⟩

/-- A workspace that may read its root and one directory more. -/
def linkedWorkspace : Workspace :=
  { Workspace.empty with
    base := some (.ofString "/w"), configuration := { includePaths := [.ofString "/lib"] } }

/-- An import that steps back behind a link. -/
def linkedSources : Table String String := .ofList [("t", "import \"in/../lib//a.toy\";")]

/-- The import is served from the include path, to which the link leads. -/
theorem isAllowed_linkedSources :
    ∃ x ∈ (linkedWorkspace.inquire linkedEnvironment linkedSources).1,
      x.path = "in/../lib//a.toy" ∧ x.outcome = .ok "var a;\n" ∧
        ∃ place, IsReadAt linkedFiles linkedWorkspace x.path "var a;\n" place ∧
          IsAllowed linkedFiles linkedWorkspace place := by
  have hasked : ∃ x ∈ (linkedWorkspace.inquire linkedEnvironment linkedSources).1,
      x.path = "in/../lib//a.toy" ∧ x.outcome = .ok "var a;\n" := by
    decide +kernel
  obtain ⟨x, hx, hpath, hserved⟩ := hasked
  refine ⟨x, hx, hpath, hserved,
    isAllowed_of_inquire (by decide +kernel) hx ?_ hserved fun p hp => ?_⟩
  · rw [hpath]
    decide +kernel
  · rw [hpath] at hp
    obtain rfl := Except.ok.inj hp
    exact FileSystem.isCanonical_resolve (by decide +kernel)

/-- A workspace with a link that leads back to itself and one that leads out. -/
def loopingFiles : FileSystem where
  files := .ofList [(["etc", "b.toy"], encodeUtf8 "var b;".toList)]
  links := .ofList [(["w", "loop"], .ofString "loop"), (["w", "out"], .ofString "/etc")]
  workingDirectory := []

/-- Behind a link that cannot be followed, another link leads out of the allowed directories. -/
theorem not_isAllowed_loopingFiles :
    readDisk loopingFiles linkedWorkspace "loop/../out/b.toy" = .ok (.ok "var b;") ∧
      ¬ ∃ place, IsReadAt loopingFiles linkedWorkspace "loop/../out/b.toy" "var b;" place ∧
        IsAllowed loopingFiles linkedWorkspace place := by
  refine ⟨by decide +kernel, ?_⟩
  rintro ⟨place, ⟨⟨p, hlocate, rfl⟩, -, -⟩, dir, hdir, hwithin⟩
  obtain rfl := Except.ok.inj hlocate
  revert dir
  decide +kernel

end LanguageServer.Workspace
