import LanguageServer.Proofs.Files.Uri
import LanguageServer.Proofs.Workspace.Reporting
import LanguageServer.Proofs.Workspace.Retention

/-!
# Documents of one name

Documents are told apart by their URIs, but the engine knows them by their names.  Several
URIs may be spellings of one name.  Of the documents of one name the engine is handed the
last one, and whatever lies in it is reported under its URI: the others are hidden.  No
document is hidden if all URIs are spelt in the usual way.

## Main definitions

* `DocumentStore.Managed` — the stores that come of tracking, changing, closing and evicting.
* `Workspace.IsHidden` — a later document has the same name.
* `Workspace.IsUsual` — the usual spelling of a URI.
* `Workspace.Represents` — an engine was handed a document, which is reported under its URI.

## Main statements

* `Workspace.isUsual_ofPath` — the URI of a path is spelt in the usual way.
* `Workspace.represents_compile` — exactly the documents that are not hidden are represented.
-/

namespace LanguageServer

namespace DocumentStore

variable {N : String → Prop} {s s' : DocumentStore}

/-- The stores that come of tracking documents with certain URIs, and of changing, closing and
evicting them. -/
inductive Managed (N : String → Prop) : DocumentStore → Prop
  | empty : Managed N .empty
  | track {s : DocumentStore} (h : Managed N s) {uri : String} (huri : N uri) (language : Json)
      (version : Option Int) (content : String) : Managed N (s.track uri language version content)
  | applyEdits {s s' : DocumentStore} (h : Managed N s) {uri : String} {version : Option Int}
      {edits : List Edit} (hedits : s.applyEdits uri version edits = .ok s') : Managed N s'
  | close {s s' : DocumentStore} (h : Managed N s) {uri : String} (hclose : s.close uri = .ok s') :
      Managed N s'
  | evict {s : DocumentStore} (h : Managed N s) (uris : List String) : Managed N (s.evict uris).1

theorem Managed.isFormed (h : Managed N s) : s.IsFormed := by
  induction h with
  | empty => exact isFormed_empty
  | track _ _ language version content ih => exact ih.track _ language version content
  | applyEdits _ hedits ih => exact ih.applyEdits hedits
  | close _ hclose ih => exact ih.close hclose
  | evict _ uris ih => exact ih.evict uris

/-- No URI is tracked twice. -/
theorem Managed.nodup_keys (h : Managed N s) : s.documents.keys.Nodup := by
  induction h with
  | empty => exact .nil
  | track _ _ language version content ih => exact Table.nodup_keys_insert _ _ _ ih
  | applyEdits _ hedits ih =>
    obtain ⟨d, content, -, -, rfl⟩ := applyEdits_eq_ok hedits
    exact Table.nodup_keys_insert _ _ _ ih
  | close _ hclose ih =>
    obtain ⟨-, rfl⟩ := close_eq_ok hclose
    exact ih
  | evict _ uris ih =>
    rw [documents_evict, Table.keys_restrict]
    exact ih.filter _

/-- Only documents with admitted URIs are tracked. -/
theorem Managed.of_contains (h : Managed N s) {uri : String} (hcontains : s.contains uri = true) :
    N uri := by
  induction h with
  | empty => cases hcontains
  | track _ huri language version content ih =>
    rcases (Table.contains_insert _ _ _ _).1 hcontains with rfl | hcontains
    · exact huri
    · exact ih hcontains
  | applyEdits _ hedits ih =>
    obtain ⟨d, content, hd, -, rfl⟩ := applyEdits_eq_ok hedits
    rcases (Table.contains_insert _ _ _ _).1 hcontains with rfl | hcontains
    · exact ih (Option.isSome_iff_exists.2 ⟨d, hd⟩)
    · exact ih hcontains
  | close _ hclose ih => exact ih (contains_close hclose uri ▸ hcontains)
  | evict _ uris ih =>
    rw [contains_evict, Bool.and_eq_true] at hcontains
    exact ih hcontains.2

theorem IsFormed.map_uri_toList (h : s.IsFormed) : s.toList.map (·.uri) = s.documents.keys := by
  unfold toList Table.values Table.keys
  rw [List.map_map]
  exact List.map_congr_left fun e he => h.uri e he

end DocumentStore

namespace Workspace

variable {ws : Workspace} {uris texts : Table String String} {n : String}
  {front back l : List Document} {d : Document}

/-! ## Hidden documents -/

/-- Some later document has the name of the document. -/
def IsHidden (l : List Document) (d : Document) : Prop :=
  ∃ front back, l = front ++ d :: back ∧ ∃ d' ∈ back, sourceNameFor d'.uri = sourceNameFor d.uri

theorem uri_notMem_of_nodup (h : ((front ++ d :: back).map (·.uri)).Nodup) :
    d.uri ∉ back.map (·.uri) := by
  rw [List.map_append, List.map_cons] at h
  exact (List.nodup_cons.1 (List.nodup_append.1 h).2.1).1

/-- Documents of which no two have one name are not hidden. -/
theorem not_isHidden_of_nodup (hnodup : (l.map (·.uri)).Nodup)
    (hnames : ∀ d ∈ l, ∀ d' ∈ l, sourceNameFor d.uri = sourceNameFor d'.uri → d.uri = d'.uri) :
    ¬ IsHidden l d := by
  rintro ⟨front, back, rfl, d', hd', hname⟩
  have hmem : d' ∈ front ++ d :: back := List.mem_append_right _ (List.mem_cons_of_mem _ hd')
  have hsame : d'.uri = d.uri := hnames d' hmem d (by simp) hname
  exact uri_notMem_of_nodup hnodup (hsame ▸ List.mem_map_of_mem hd')

/-! ## The usual spelling -/

/-- Whether a text begins with a scheme, which is longer than the letter of a drive. -/
def hasScheme (s : String) : Bool := 1 < (Uri.cutScheme s.toList).1.length

/-- A URI as it is usually spelt: that of the path which it names, or one with another scheme. -/
inductive IsUsual (uri : String) : Prop
  | file {path : String} (hfile : Text.beginsWith "file:" uri = true)
      (hname : sourceNameFor uri = .ok path) (hpath : hasScheme path = false)
      (huri : Uri.ofPath path = .ok uri)
  | other (hother : Text.beginsWith "file:" uri = false) (hscheme : hasScheme uri = true)

theorem sourceNameFor_of_not_file {uri : String} (h : Text.beginsWith "file:" uri = false) :
    sourceNameFor uri = .ok uri := by
  simp [sourceNameFor, h]

/-- No two usual spellings have the same name. -/
theorem IsUsual.eq_of_sourceNameFor {uri uri' : String} (h : IsUsual uri) (h' : IsUsual uri')
    (hsame : sourceNameFor uri = sourceNameFor uri') : uri = uri' := by
  cases h with
  | file hfile hname hpath huri =>
    rw [hname] at hsame
    cases h' with
    | file _ hname' _ huri' =>
      obtain rfl := Except.ok.inj (hsame.trans hname')
      exact Except.ok.inj (huri.symm.trans huri')
    | other hother' hscheme' =>
      obtain rfl := Except.ok.inj (hsame.trans (sourceNameFor_of_not_file hother'))
      rw [hscheme'] at hpath
      cases hpath
  | other hother hscheme =>
    rw [sourceNameFor_of_not_file hother] at hsame
    cases h' with
    | file _ hname' hpath' _ =>
      obtain rfl := Except.ok.inj (hsame.trans hname')
      rw [hscheme] at hpath'
      cases hpath'
    | other hother' _ => exact Except.ok.inj (hsame.trans (sourceNameFor_of_not_file hother'))

section Below

variable {path uri : String} {rest : List Char} (hrooted : path.toList = '/' :: rest)
  (hhost : rest.head? ≠ some '/') (hdrive : Uri.beginsWithDrive path.toList = false)
  (huri : Uri.ofPath path = .ok uri)
include hrooted hhost hdrive huri

/-- A path below the root is the name of its URI. -/
theorem sourceNameFor_ofPath : sourceNameFor uri = .ok path := by
  have hread := Uri.toPath?_ofPath_below hrooted hhost hdrive huri
  have hnonempty : path.isEmpty = false := by
    rw [← Bool.not_eq_true, String.isEmpty_iff]
    rintro rfl
    simp at hrooted
  simp [sourceNameFor, Uri.beginsWith_of_ofPath huri, hread, hnonempty, bind, Except.bind, pure,
    Except.pure]

/-- The URI of a path below the root is spelt in the usual way. -/
theorem isUsual_ofPath : IsUsual uri := by
  refine .file (Uri.beginsWith_of_ofPath huri) (sourceNameFor_ofPath hrooted hhost hdrive huri) ?_ huri
  unfold hasScheme Uri.cutScheme
  rw [hrooted]
  cases hfirst : Text.cutFirst? ':' ('/' :: rest) with
  | none => rfl
  | some cut =>
    obtain ⟨scheme, behind⟩ := cut
    cases scheme with
    | nil => rfl
    | cons c cs =>
      have hslash := (Text.cutFirst?_eq_some_iff.1 hfirst).1
      obtain ⟨rfl, -⟩ := List.cons.inj hslash
      rfl

end Below

/-! ## What is compiled -/

/-- The engine was handed the text of a document under a name, and what lies in the source of this
name is reported under the URI of the document. -/
structure Represents (texts : Table String String) (v : View) (n : String) (d : Document) : Prop where
  handed : texts.find? n = some d.content
  reported : v.ReportsUnder n d.uri

/-- The last document of a name is the one that is represented. -/
theorem represents_of_last {env : Environment}
    (hnames : nameDocuments .empty .empty ws.store.toList = (uris, .ok texts))
    (hl : ws.store.toList = front ++ d :: back) (hd : sourceNameFor d.uri = .ok n)
    (hlast : ∀ d' ∈ back, sourceNameFor d'.uri ≠ .ok n) {κ : Type} (recipient : Recipient κ) (k : κ) :
    Represents texts (((compile env).run ws).deliver recipient k).2.2.view n d := by
  obtain ⟨huri, htext⟩ := find?_of_last (hl ▸ hnames) hd hlast
  refine ⟨htext, View.reportsUnder_of_uri ?_⟩
  have huris := uris_compile env hnames recipient k
  unfold view uriFor
  simp only [huris, huri]

/-- A compilation of documents that all have names hands the engine texts first.  A document that no
later document of the same name hides is among them under its name, and is reported under its own
URI afterwards, however the compilation ends.  In place of one that is hidden, another document of
its name is.  No document is hidden if all URIs are spelt in the usual way. -/
theorem represents_compile (hstore : ws.store.Managed IsNameable) (env : Environment) {κ : Type}
    (recipient : Recipient κ) (k : κ) :
    ∃ texts later,
      ((compile env).run ws).said.map (·.1) = .engine (.sources texts) :: later ∧
      (∀ d ∈ ws.store.toList, ∃ n, sourceNameFor d.uri = .ok n ∧
        (¬ IsHidden ws.store.toList d →
          Represents texts (((compile env).run ws).deliver recipient k).2.2.view n d) ∧
        (IsHidden ws.store.toList d → ∃ d' ∈ ws.store.toList, d'.uri ≠ d.uri ∧
          sourceNameFor d'.uri = .ok n ∧
          Represents texts (((compile env).run ws).deliver recipient k).2.2.view n d')) ∧
      ((∀ d ∈ ws.store.toList, IsUsual d.uri) →
        ∀ d ∈ ws.store.toList, ¬ IsHidden ws.store.toList d) := by
  have hnameable : ws.TracksOnly IsNameable := fun _ => hstore.of_contains
  obtain ⟨uris, texts, hnames⟩ := hnameable.exists_nameDocuments hstore.isFormed
  have hnodup : (ws.store.toList.map (·.uri)).Nodup :=
    hstore.isFormed.map_uri_toList ▸ hstore.nodup_keys
  have hsaid := (run_compile env hnames).1
  simp only [compileRemarks, hnames, List.cons_append] at hsaid
  refine ⟨texts, _, hsaid, fun d hd => ?_, fun husual d _ => ?_⟩
  · obtain ⟨n, hn⟩ := exists_name hnames d hd
    refine ⟨n, hn, fun hshown => ?_, ?_⟩
    · obtain ⟨front, back, hl⟩ := List.append_of_mem hd
      exact represents_of_last hnames hl hn
        (fun d' hd' hname => hshown ⟨front, back, hl, d', hd', hname.trans hn.symm⟩) recipient k
    · rintro ⟨front, back, hl, later, hlater, hname⟩
      obtain ⟨front', d', back', rfl, hd', hlast⟩ := exists_last ⟨later, hlater, hname.trans hn⟩
      have hl' : ws.store.toList = (front ++ d :: front') ++ d' :: back' := by simpa using hl
      have hne : d.uri ∉ (front' ++ d' :: back').map (·.uri) := uri_notMem_of_nodup (hl ▸ hnodup)
      refine ⟨d', by simp [hl'], fun heq => hne ?_, hd',
        represents_of_last hnames hl' hd' hlast recipient k⟩
      exact heq ▸ List.mem_map_of_mem (List.mem_append_right _ List.mem_cons_self)
  · exact not_isHidden_of_nodup hnodup fun d hd d' hd' =>
      (husual d hd).eq_of_sourceNameFor (husual d' hd')

/-- A document with a URI in its usual spelling. -/
def plainlySpelt : Document := ⟨"file:///a.toy", .str "toy", none, "g;", 0⟩

/-- A document whose URI is another spelling of the same path. -/
def oddlySpelt : Document := ⟨"file:///%61.toy", .str "toy", none, "", 0⟩

/-- The workspace in which both are tracked. -/
def twiceSpelt : Workspace :=
  { Workspace.empty with
    store := (DocumentStore.empty.track plainlySpelt.uri (.str "toy") none "g;").track oddlySpelt.uri
      (.str "toy") none "" }

/-- Of two spellings of one path the one that was opened last is represented. -/
theorem represents_compile_twiceSpelt : ∃ texts later,
    ((compile libraryEnvironment).run twiceSpelt).said.map (·.1) = .engine (.sources texts) :: later ∧
      IsHidden twiceSpelt.store.toList plainlySpelt ∧
      Represents texts
        (((compile libraryEnvironment).run twiceSpelt).deliver heeding ()).2.2.view "/a.toy" oddlySpelt := by
  have hname : sourceNameFor plainlySpelt.uri = .ok "/a.toy" := by decide +kernel
  have hname' : sourceNameFor oddlySpelt.uri = .ok "/a.toy" := by decide +kernel
  have hmanaged : twiceSpelt.store.Managed IsNameable :=
    (DocumentStore.Managed.empty.track ⟨_, hname⟩ _ _ _).track ⟨_, hname'⟩ _ _ _
  have htracked : twiceSpelt.store.toList = [plainlySpelt, oddlySpelt] := rfl
  have hshown : ¬ IsHidden twiceSpelt.store.toList oddlySpelt := by
    rintro ⟨front, back, hl, d', hd', -⟩
    -- Behind the second of two documents there is none.
    rw [htracked] at hl
    rcases front with _ | ⟨first, rest⟩
    · exact absurd (congrArg Document.uri (List.cons.inj hl).1) (by decide)
    · have hlength := congrArg List.length (List.cons.inj hl).2
      rw [List.eq_nil_of_length_eq_zero (l := back) (by simp at hlength; omega)] at hd'
      cases hd'
  obtain ⟨texts, later, hsaid, hall, -⟩ := represents_compile hmanaged libraryEnvironment heeding ()
  obtain ⟨n, hn, hrepresents, -⟩ := hall oddlySpelt (htracked ▸ List.mem_cons_of_mem _ List.mem_cons_self)
  obtain rfl := Except.ok.inj (hname'.symm.trans hn)
  exact ⟨texts, later, hsaid,
    ⟨[], [oddlySpelt], htracked, oddlySpelt, List.mem_singleton.2 rfl, hname'.trans hname.symm⟩,
    hrepresents hshown⟩

end Workspace

end LanguageServer
