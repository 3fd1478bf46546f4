import LanguageServer.Compiler.Prepared
import LanguageServer.Proofs.Files.Normal
import LanguageServer.Proofs.Workspace.Knowledge
import LanguageServer.Proofs.Workspace.Naming
import LanguageServer.Toy.Engine

/-!
# Documents win over files

What an engine asks for is looked up among the documents by the text of its path, before
the path is followed to a file.  So a document wins over the file that it stands for if the
engine spells the path as the document does.  It does if both are in normal form, and the
relative imports of a source whose name is in normal form come out in normal form.

A path that spells the place otherwise, such as one that is relative to the root, leads past
the document to the file.

## Main definitions

* `Workspace.IsRecognisable` — how the path of a document may be written to be recognised.

## Main statements

* `Toy.isNormalPath_resolveImport` — relative imports come out in normal form.
* `Workspace.exists_document_of_inquire` — an engine that asks so is served the document.
-/

namespace LanguageServer

open Workspace

theorem Toy.isRelativeImport_cons {path : String} (h : isRelativeImport path = true) :
    ∃ cs, path.toList = '.' :: cs := by
  rw [isRelativeImport, Bool.or_eq_true, Text.beginsWith_iff, Text.beginsWith_iff] at h
  rcases h with ⟨rest, hrest⟩ | ⟨rest, hrest⟩
  · exact ⟨'/' :: rest, hrest.symm⟩
  · exact ⟨'.' :: '/' :: rest, hrest.symm⟩

/-- Where a source in normal form leads by a relative path is written in normal form. -/
theorem Toy.isNormalPath_resolveImport {rules : List Remapping} {importer path : String}
    (himporter : IsNormalPath importer)
    (hrelative : isRelativeImport (remapPath rules importer path) = true) :
    IsNormalPath (resolveImport rules importer path) := by
  simp only [resolveImport, hrelative, if_true]
  obtain ⟨cs, hcs⟩ := isRelativeImport_cons hrelative
  exact isNormalPath_normalisePath (himporter.joined hcs)

namespace Workspace

variable {env : Environment} {ws : Workspace} {uris uris' texts texts' sources : Table String String}

/-- The text under a name is that of a document of this name. -/
theorem exists_of_find?_texts {l : List Document} (h : nameDocuments uris texts l = (uris', .ok texts'))
    {n text : String} (hfind : texts'.find? n = some text) :
    texts.find? n = some text ∨ ∃ d ∈ l, sourceNameFor d.uri = .ok n ∧ d.content = text := by
  induction l generalizing uris texts with
  | nil =>
    obtain ⟨-, htexts⟩ := Prod.mk.inj h
    obtain rfl := Except.ok.inj htexts
    exact .inl hfind
  | cons d rest ih =>
    obtain ⟨name, hname, hrest⟩ := nameDocuments_cons_iff.1 h
    rcases ih hrest with hfound | ⟨d', hd', hfound⟩
    · rw [Table.find?_insert] at hfound
      split at hfound
      · next heq => exact .inr ⟨d, List.mem_cons_self, heq ▸ hname, Option.some.inj hfound⟩
      · exact .inl hfound
    · exact .inr ⟨d', List.mem_cons_of_mem _ hd', hfound⟩

/-- How a path may be written so that it is recognised as that of the document known by `name`: just
like this, or in normal form if the name is too, for example because it is that of a relative
import. -/
inductive IsRecognisable (name : String) : String → Prop
  | verbatim : IsRecognisable name name
  | normal {path : String} (hname : IsNormalPath name) (hpath : IsNormalPath path) :
      IsRecognisable name path
  | imported {rules : List Remapping} {importer path : String} (hname : IsNormalPath name)
      (himporter : IsNormalPath importer)
      (hrelative : Toy.isRelativeImport (remapPath rules importer path) = true) :
      IsRecognisable name (Toy.resolveImport rules importer path)

/-- A recognisable path that leads to the place of a document, dots and doubled slashes aside, is
the name of the document. -/
theorem IsRecognisable.eq_name {name path : String} (h : IsRecognisable name path) {p : Path}
    (hlocate : ws.locate path = .ok p)
    (hplace : p.normalise.parts = (Path.ofString name).normalise.parts) : path = name := by
  have hnormal {path : String} (hname : IsNormalPath name) (hpath : IsNormalPath path)
      (hlocate : ws.locate path = .ok p) : path = name := by
    refine hpath.eq_of_parts hname ?_
    have habsolute : (Path.ofString path).isAbsolute = true := by simp [Path.isAbsolute, hpath.anchor]
    simp only [locate, habsolute, if_true, Except.ok.injEq] at hlocate
    rw [hlocate, hplace]
  cases h with
  | verbatim => rfl
  | normal hname hpath => exact hnormal hname hpath hlocate
  | imported hname himporter hrelative =>
    exact hnormal hname (Toy.isNormalPath_resolveImport himporter hrelative) hlocate

/-- Documents win over files.  During a compilation, whatever the engine is: if it asks for a source
by a path that leads to the place of a tracked document, seen from the root if it is relative, and
with dots, steps back and doubled slashes removed, and if the path is recognisable, then it is
served the text of a tracked document of that place, never that of the file. -/
theorem exists_document_of_inquire
    (hnames : nameDocuments .empty .empty ws.store.toList = (uris, .ok sources)) {x : Exchange}
    (hasked : x ∈ (ws.inquire env sources).1) (hkind : x.kind = sourceKind) {d : Document}
    (hd : d ∈ ws.store.toList) {name : String} (hname : sourceNameFor d.uri = .ok name) {p : Path}
    (hlocate : ws.locate x.path = .ok p)
    (hplace : p.normalise.parts = (Path.ofString name).normalise.parts)
    (hwritten : IsRecognisable name x.path) :
    ∃ d' ∈ ws.store.toList, sourceNameFor d'.uri = .ok name ∧ x.outcome = .ok d'.content := by
  have hpath := hwritten.eq_name hlocate hplace
  have hgiven : sources.contains x.path = true :=
    (contains_texts_iff hnames x.path).2 (.inr ⟨d, hd, hpath ▸ hname⟩)
  obtain ⟨text, htext⟩ := Option.isSome_iff_exists.1 hgiven
  have hanswer := Compiling.answer_of_mem_converse hasked
  simp only [answer, hkind, htext, ne_eq, not_true_eq_false, if_false, Except.ok.injEq] at hanswer
  rcases exists_of_find?_texts hnames htext with hnone | ⟨d', hd', hname', hcontent⟩
  · cases hnone
  · exact ⟨d', hd', hpath ▸ hname', by rw [hcontent, hanswer]⟩

/-- A file, and an engine that asks for it by its path. -/
def shadowedEnvironment : Environment where
  files :=
    { files := .ofList [(["w", "lib.toy"], Text.encodeUtf8 "var f;".toList)], links := .empty
      workingDirectory := [] }
  engines := preparedEngines [{ questions := [(sourceKind, "/w/lib.toy")], outcome := .error "" }] none
  reporter := "engine"

/-- A workspace in which the file is open, with another text. -/
def shadowingWorkspace : Workspace :=
  { Workspace.empty with
    store := DocumentStore.empty.track "file:///w/lib.toy" (.str "toy") none "var g;"
    base := some (.ofString "/w") }

/-- The relative import of a source beside the file is served the document. -/
theorem exists_document_of_inquire_shadowed : ∃ sources x,
    x ∈ (shadowingWorkspace.inquire shadowedEnvironment sources).1 ∧
      x.path = Toy.resolveImport [] "/w/a.toy" "./lib.toy" ∧
      ∃ d ∈ shadowingWorkspace.store.toList, sourceNameFor d.uri = .ok "/w/lib.toy" ∧
        x.outcome = .ok d.content := by
  have hnames : nameDocuments .empty .empty shadowingWorkspace.store.toList =
      (.ofList [("/w/lib.toy", "file:///w/lib.toy")], .ok (.ofList [("/w/lib.toy", "var g;")])) := by
    rfl
  have hasked : ∃ x ∈ (shadowingWorkspace.inquire shadowedEnvironment
      (.ofList [("/w/lib.toy", "var g;")])).1, x.kind = sourceKind ∧ x.path = "/w/lib.toy" := by
    decide +kernel
  obtain ⟨x, hx, hkind, hpath⟩ := hasked
  have hresolved : x.path = Toy.resolveImport [] "/w/a.toy" "./lib.toy" := by
    rw [hpath]
    decide +kernel
  have htracked : shadowingWorkspace.store.toList =
      [⟨"file:///w/lib.toy", .str "toy", none, "var g;", 0⟩] := rfl
  have hwritten : IsRecognisable "/w/lib.toy" x.path := by
    rw [hresolved]
    exact .imported ⟨by decide +kernel, by decide +kernel⟩ ⟨by decide +kernel, by decide +kernel⟩
      (by decide +kernel)
  exact ⟨_, x, hx, hresolved, exists_document_of_inquire hnames hx hkind
    (htracked ▸ List.mem_singleton.2 rfl) (by decide +kernel)
    (p := .ofString "/w/lib.toy") (by rw [hpath]; decide +kernel) rfl hwritten⟩

end Workspace

end LanguageServer
