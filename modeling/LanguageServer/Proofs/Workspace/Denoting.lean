import LanguageServer.Proofs.Files.Normal
import LanguageServer.Proofs.Files.Uri
import LanguageServer.Proofs.Workspace.Confinement
import LanguageServer.Proofs.Workspace.Reporting

/-!
# Which file a reported URI denotes

A source that is read from disk is reported under the URI of the path that its name spells.
The file that it was read from is found by following the same path, seen from the workspace
root if it is relative; but a URI has no relative paths.  So the URI of an absolute name
denotes the file that was read, and that of a relative name a file below the file system's
root instead.

## Main definitions

* `Workspace.IsReadFrom` — the file that a source is read from.
* `Uri.Denotes` — the file at the path that a URI names.
* `Workspace.IsPathName` — names of which the URI is that of a path.

## Main statements

* `Path.parts_ofString_read` — the URI of a path names a path with the same components.
* `Workspace.denotes_of_readTexts` — what the URI denotes under which a source is reported.
-/

namespace LanguageServer

open Text

/-! ## Paths with the same components -/

namespace Path

theorem parts_ofString_toList (s : String) :
    (ofString s).parts = ((pieces '/' s.toList).filter isNamed).map String.ofList := rfl

/-- What the URI of a path is read back as has the components of the path. -/
theorem parts_ofString_read {path : String} {host rest : List Char}
    (h : Uri.cutHostPath path.toList = .ok (host, rest)) :
    (ofString (String.ofList (Uri.hostText host ++ Uri.rooted rest))).parts = (ofString path).parts := by
  rw [parts_ofString_toList, parts_ofString_toList, String.toList_ofList]
  congr 1
  unfold Uri.cutHostPath at h
  split at h
  · next behind hpath =>
    split at h
    · next host' rest' hcut =>
      obtain ⟨rfl, rfl⟩ := Prod.mk.inj (Except.ok.inj h)
      obtain ⟨hbehind, -⟩ := cutFirst?_eq_some_iff.1 hcut
      rw [hpath, hbehind, show Uri.rooted ('/' :: rest') = '/' :: rest' from rfl, Uri.hostText]
      split
      · next hempty =>
        rw [hempty]
        exact ((filter_pieces_slash _).trans (filter_pieces_slash _)).symm
      · rfl
    · cases h
  · obtain ⟨rfl, rfl⟩ := Prod.mk.inj (Except.ok.inj h)
    rw [Uri.hostText, if_pos rfl, List.nil_append, Uri.rooted]
    split
    · rfl
    · exact filter_pieces_slash _

end Path

/-- Only the components of an absolute path count when it is resolved. -/
theorem FileSystem.resolve?_eq_ok_iff {fs : FileSystem} {p q place : Path}
    (hp : p.isAbsolute = true) (hq : q.isAbsolute = true) (hparts : p.parts = q.parts) :
    fs.resolve? p = .ok place ↔ fs.resolve? q = .ok place := by
  have hnul : p.hasNul = q.hasNul := by simp only [Path.hasNul, hparts]
  have hresolve : fs.resolve p = fs.resolve q := by
    simp only [FileSystem.resolve, FileSystem.absoluteParts, hp, hq, if_true, hparts]
  unfold FileSystem.resolve?
  rw [hnul, hresolve]
  split <;> simp

/-- The file at the path that a URI names, links followed. -/
def Uri.Denotes (files : FileSystem) (uri : String) (place : Path) : Prop :=
  ∃ path, Uri.toPath? uri = .ok (some path) ∧ files.resolve? (Path.ofString path) = .ok place

namespace Workspace

variable {env : Environment} {ws : Workspace} {uris sources : Table String String} {name text : String}

/-! ## What is read -/

/-- The source at `name` is read from the file at `place`. -/
structure IsReadFrom (files : FileSystem) (ws : Workspace) (name text : String) (place : Path) :
    Prop where
  located : ∃ p, ws.locate name = .ok p ∧ files.resolve? p = .ok place
  held : files.readText place = .ok text

theorem exists_isReadFrom {files : FileSystem} (h : readDisk files ws name = .ok (.ok text)) :
    ∃ place, IsReadFrom files ws name text place := by
  obtain ⟨p, hlocate, hresolve, -, hread⟩ := readDisk_eq_ok h
  exact ⟨files.resolve p, ⟨p, hlocate, hresolve⟩, hread⟩

/-- A text that is noted is that of an answer from disk. -/
theorem exists_of_find?_readTextsOf {t : Table String String} {l : List Exchange}
    (h : (readTextsOf sources t l).find? name = some text) :
    t.find? name = some text ∨
      ∃ x ∈ l, Reaches sources x = true ∧ x.path = name ∧ x.outcome = .ok text := by
  induction l generalizing t with
  | nil => exact .inl h
  | cons x rest ih =>
    have hlater : (∃ y ∈ rest, Reaches sources y = true ∧ y.path = name ∧ y.outcome = .ok text) →
        ∃ y ∈ x :: rest, Reaches sources y = true ∧ y.path = name ∧ y.outcome = .ok text :=
      fun ⟨y, hy, hanswer⟩ => ⟨y, List.mem_cons_of_mem _ hy, hanswer⟩
    unfold readTextsOf at h
    cases hreach : Reaches sources x with
    | false =>
      rw [List.filter_cons_of_neg (by simp [hreach])] at h
      exact (ih h).imp_right hlater
    | true =>
      rw [List.filter_cons_of_pos hreach, List.foldl_cons] at h
      rcases ih h with hfirst | hrest
      · cases houtcome : x.outcome with
        | error failure =>
          simp only [houtcome] at hfirst
          exact .inl hfirst
        | ok text' =>
          simp only [houtcome, Table.find?_insert] at hfirst
          split at hfirst
          · next hpath =>
            obtain rfl := Option.some.inj hfirst
            exact .inr ⟨x, List.mem_cons_self, hreach, hpath, houtcome⟩
          · exact .inl hfirst
      · exact .inr (hlater hrest)

theorem readTexts_compile (env : Environment)
    (hnames : nameDocuments .empty .empty ws.store.toList = (uris, .ok sources)) :
    ((compile env).run ws).state.readTexts = readTextsOf sources .empty (ws.inquire env sources).1 := by
  rw [(run_compile env hnames).2.2]
  split <;> rfl

/-- The engine was handed no text under the name of a source that was read, and it was read from a
file. -/
theorem exists_isReadFrom_of_find?
    (hnames : nameDocuments .empty .empty ws.store.toList = (uris, .ok sources))
    (hread : ((compile env).run ws).state.readTexts.find? name = some text) :
    sources.contains name = false ∧ ∃ place, IsReadFrom env.files ws name text place := by
  rw [readTexts_compile env hnames] at hread
  obtain ⟨x, hx, hreach, rfl, hserved⟩ := (exists_of_find?_readTextsOf hread).resolve_left (by simp)
  simp only [Reaches, Bool.and_eq_true, beq_iff_eq, Bool.not_eq_true'] at hreach
  obtain ⟨hkind, hnew⟩ := hreach
  refine ⟨hnew, exists_isReadFrom ?_⟩
  have hanswer := Compiling.answer_of_mem_converse hx
  rw [hkind, hserved] at hanswer
  exact readDisk_of_answer ((Table.contains_eq_false_iff _ _).1 hnew) hanswer

/-! ## What is reported -/

/-- A name without the mark of a URI that spells a path: it has no drive letter, and a slash ends its
host if it has one. -/
structure IsPathName (name : String) : Prop where
  markless : Uri.hasAuthorityMark name.toList = false
  written : ∃ host rest, Uri.IsWritten name host rest

/-- The URI of a path denotes what the components of the path lead to from the root. -/
theorem IsPathName.denotes_ofPath_iff (hname : IsPathName name) {files : FileSystem} {uri : String}
    (huri : Uri.ofPath name = .ok uri) (place : Path) :
    Uri.Denotes files uri place ↔
      files.resolve? ⟨.root, (Path.ofString name).parts⟩ = .ok place := by
  obtain ⟨host, rest, hwritten⟩ := hname.written
  obtain ⟨uri', huri', hread⟩ := Uri.toPath?_ofPath hwritten
  obtain rfl := Except.ok.inj (huri.symm.trans huri')
  have habsolute : (Path.ofString (String.ofList (Uri.hostText host ++ Uri.rooted rest))).isAbsolute =
      true := by
    rw [Path.isAbsolute_ofString_iff, String.toList_ofList, Uri.hostText]
    split
    · exact Uri.head?_rooted rest
    · rfl
  unfold Uri.Denotes
  simp only [hread, Except.ok.injEq, Option.some.injEq, exists_eq_left']
  exact FileSystem.resolve?_eq_ok_iff habsolute rfl (Path.parts_ofString_read hwritten.cut)

/-- A source that no document stands for is reported under the URI of the path that its name spells. -/
theorem IsPathName.exists_reportsUnder (hname : IsPathName name) :
    ∃ uri, Uri.ofPath name = .ok uri ∧ ∀ later : Workspace, later.uris.find? name = none →
      later.view.ReportsUnder name uri := by
  obtain ⟨host, rest, hwritten⟩ := hname.written
  obtain ⟨uri, huri, -⟩ := Uri.toPath?_ofPath hwritten
  refine ⟨uri, huri, fun later huntracked => View.reportsUnder_of_uri ?_⟩
  unfold view uriFor
  simp only [huntracked, hname.markless, Bool.false_eq_true, if_false, huri]

/-- Reported URIs denote files.  A source that a compilation reads from disk under a name which spells
a path is reported under one URI for as long as the documents keep theirs.  If the name is absolute,
this URI denotes the file that was read.  If the name is relative, the file that was read is seen
from the workspace root, but the URI denotes what the name leads to from the root of all files. -/
theorem denotes_of_readTexts
    (hnames : nameDocuments .empty .empty ws.store.toList = (uris, .ok sources))
    (hread : ((compile env).run ws).state.readTexts.find? name = some text)
    (hname : IsPathName name) :
    ∃ place uri, IsReadFrom env.files ws name text place ∧
      (∀ later : Workspace, later.uris = ((compile env).run ws).state.uris →
        later.view.ReportsUnder name uri) ∧
      ((Path.ofString name).isAbsolute = true → Uri.Denotes env.files uri place) ∧
      ((Path.ofString name).isAbsolute = false → ∀ q, Uri.Denotes env.files uri q ↔
        env.files.resolve? ⟨.root, (Path.ofString name).parts⟩ = .ok q) := by
  obtain ⟨hnew, place, hplace⟩ := exists_isReadFrom_of_find? hnames hread
  obtain ⟨uri, huri, hreports⟩ := hname.exists_reportsUnder
  have huntracked : uris.find? name = none := by
    refine (find?_of_unnamed hnames fun d hd hdname => ?_).1
    rw [(contains_texts_iff hnames name).2 (.inr ⟨d, hd, hdname⟩)] at hnew
    cases hnew
  refine ⟨place, uri, hplace, fun later hlater => hreports later ?_, fun habsolute => ?_,
    fun _ => hname.denotes_ofPath_iff huri⟩
  · rw [hlater, uris_run_compile env hnames, huntracked]
  · obtain ⟨p, hlocate, hresolve⟩ := hplace.located
    simp only [locate, habsolute, if_true, Except.ok.injEq] at hlocate
    rw [← hlocate, FileSystem.resolve?_eq_ok_iff (q := ⟨.root, _⟩) habsolute rfl rfl] at hresolve
    exact (hname.denotes_ofPath_iff huri place).2 hresolve

/-- A workspace with a document that imports the source on disk. -/
def borrowingWorkspace : Workspace :=
  { Workspace.empty with
    store := DocumentStore.empty.track "file:///w/a.toy" (.str "toy") none "import \"./lib.toy\";\nf;"
    base := some (.ofString "/w") }

/-- The source on disk is reported under a URI that denotes it. -/
theorem denotes_of_readTexts_borrowing : ∃ place uri,
    IsReadFrom libraryEnvironment.files borrowingWorkspace "/w/lib.toy" "var f = 1;" place ∧
      ((compile libraryEnvironment).run borrowingWorkspace).state.view.ReportsUnder "/w/lib.toy" uri ∧
      Uri.Denotes libraryEnvironment.files uri place := by
  have hnames : nameDocuments .empty .empty borrowingWorkspace.store.toList =
      (.ofList [("/w/a.toy", "file:///w/a.toy")],
        .ok (.ofList [("/w/a.toy", "import \"./lib.toy\";\nf;")])) := by
    rfl
  have hread : ((compile libraryEnvironment).run borrowingWorkspace).state.readTexts.find? "/w/lib.toy" =
      some "var f = 1;" := by
    decide +kernel
  have hname : IsPathName "/w/lib.toy" :=
    ⟨by decide +kernel, [], "/w/lib.toy".toList, by decide +kernel, by decide +kernel⟩
  obtain ⟨place, uri, hplace, hreports, habsolute, -⟩ := denotes_of_readTexts hnames hread hname
  exact ⟨place, uri, hplace, hreports _ rfl, habsolute (by decide +kernel)⟩

end Workspace

end LanguageServer
