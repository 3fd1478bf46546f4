import LanguageServer.Proofs.Toy.Respelling
import LanguageServer.Proofs.Toy.Returns
import LanguageServer.Proofs.Workspace.Conservation
import LanguageServer.Proofs.Workspace.Handing
import LanguageServer.Proofs.Workspace.Hiding
import LanguageServer.Proofs.Workspace.Shifting

/-!
# Opening a file that was read

A file that a compilation reads may be opened as a document with the same text.  Then the engine is
handed what it was served before, but in another order, so that it gives other handles; and the text
has the carriage returns that are left out when a file is read, so that all offsets in it are others.
Neither is seen: the diagnostics of each document are the same, in another order at most, and so
are the definitions in all documents.

Carriage returns must stand before line feeds.  One that stands alone is read as a line feed, and
the text of the document has no line there.

## Main definitions

* `Workspace.withReturns` — the offsets in a text with carriage returns.
* `Workspace.IsCopyOf` — a document is opened with the URI and the text of a file.
* `Workspace.ShownAlike` — a compilation shows the same of a document in two workspaces.

## Main statements

* `Knowledge.Mirrors.perm_findings` — compilations of the same sources find the same.
* `Workspace.exists_learn_tracking` — what is found when the copy of a file is opened.
* `Workspace.shownAlike_tracking` — nothing that is shown changes then.
-/

namespace LanguageServer

open Toy Text

/-! ## The order in which things are found -/

/-- Both are the same diagnostics but for the order, or neither are diagnostics. -/
def SameUpToOrder : Except Fault (List Diagnostic) → Except Fault (List Diagnostic) → Prop
  | .ok l, .ok l' => l.Perm l'
  | .error _, .error _ => True
  | _, _ => False

namespace View

/-- If findings are sorted in another order, then each document has the same diagnostics in another
order, or they cannot be sorted either. -/
theorem sameUpToOrder_sorted {v : View} {text? : String → Option String}
    (hindex : ∀ n, v.index n = (text? n).map LineIndex.ofString) (reporter uri : String)
    {l l' : List Finding} (h : l.Perm l') :
    SameUpToOrder ((v.sorted reporter .empty l).2.map (Workspace.diagnosticsOf · uri))
      ((v.sorted reporter .empty l').2.map (Workspace.diagnosticsOf · uri)) := by
  have hshow := (exists_sorted_iff (v := v) (l := l) reporter .empty).trans
    ((forall_congr' fun f => imp_congr_left h.mem_iff).trans (exists_sorted_iff reporter .empty).symm)
  let r : Rendering := ⟨text?, fun n => (v.uri n).toOption.getD n⟩
  have huri (n uri : String) (h : v.uri n = .ok uri) : r.uri n = uri := by simp [r, h, Except.toOption]
  cases hs : (v.sorted reporter .empty l).2 with
  | error e =>
    cases hs' : (v.sorted reporter .empty l').2 with
    | error e' => trivial
    | ok t' => simp [hs, hs'] at hshow
  | ok t =>
    cases hs' : (v.sorted reporter .empty l').2 with
    | error e' => simp [hs, hs'] at hshow
    | ok t' =>
      show (Workspace.diagnosticsOf t uri).Perm (Workspace.diagnosticsOf t' uri)
      rw [(sorts_of_sorted hindex huri hs).shown, (sorts_of_sorted hindex huri hs').shown]
      exact (h.filterMap _).filterMap _

end View

namespace Knowledge.Mirrors

variable {r : Renaming} {k k' : Knowledge}

section Within

variable (h : k.Mirrors r k') (hwithin : ∀ n, k.program.units.contains n = true → r.Near n)
  (hwithin' : ∀ n, k'.program.units.contains n = true → r.Near n)
include h hwithin hwithin'

/-- Compilations of the same sources find the same, in another order at most. -/
theorem perm_findings : k.findings.Perm k'.findings := by
  have hcount {f : Finding} {n : String} (hn : r.Near n) (hlies : f.liesIn n = true) :
      k.findings.count f = k'.findings.count f := by
    have hkept (l : List Finding) : (l.filter (·.liesIn n)).count f = l.count f :=
      List.count_filter hlies
    rw [← hkept, ← hkept k'.findings, h.filter_findings hn]
  -- A finding of either compilation lies in a source of both, where it is found equally often.
  refine List.perm_iff_count.2 fun f => ?_
  by_cases hf : f ∈ k.findings
  · obtain ⟨n, hn, hlies⟩ := exists_liesIn h.formed hf
    exact hcount (hwithin n hn) hlies
  · by_cases hf' : f ∈ k'.findings
    · obtain ⟨n, hn, hlies⟩ := exists_liesIn h.formed' hf'
      exact hcount (hwithin' n hn) hlies
    · rw [List.count_eq_zero.2 hf, List.count_eq_zero.2 hf']

/-- Each document has the same diagnostics, in another order at most. -/
theorem sameUpToOrder_diagnostics (reporter uri : String) :
    SameUpToOrder (k.diagnostics reporter uri) (k'.diagnostics reporter uri) := by
  have hperm := h.perm_findings hwithin hwithin'
  have hnear {f : Finding} (hf : f ∈ k'.findings) : ∃ n, r.Near n ∧ f.liesIn n = true := by
    obtain ⟨n, hn, hlies⟩ := exists_liesIn h.formed' hf
    exact ⟨n, hwithin' n hn, hlies⟩
  have hview : k'.view.sorted reporter .empty k'.findings =
      k.view.sorted reporter .empty k'.findings := by
    refine View.sorted_congr (fun f hf => ?_) (fun f hf l hl => ?_) .empty
    · obtain ⟨n, hn, hlies⟩ := hnear hf
      exact h.diagnostic? reporter hn (h.concerns hn f (hperm.mem_iff.2 hf) hlies)
    · obtain ⟨n, hn, hlies⟩ := hnear hf
      refine h.uri _ ?_
      rwa [show l.source = n by simpa [Finding.liesIn, hl] using hlies]
  have hindex (n : String) : k.view.index n = (k.sources.find? n).map LineIndex.ofString := rfl
  unfold Knowledge.diagnostics
  rw [hview]
  exact View.sameUpToOrder_sorted hindex reporter uri hperm

end Within

end Knowledge.Mirrors

namespace Workspace

variable {φ : Shift} {env env' : Environment} {budget budget' : Nat} {ws ws' : Workspace}
  {k : Knowledge} {uris sources sources' : Table String String} {name text : String}

/-! ## Carriage returns -/

/-- Other offsets in one source: those in a text with carriage returns. -/
def withReturns (name : String) (s : List Char) : Shift where
  map source := if source = name then rawOffset s else id
  map_zero source := by
    split
    · exact rawOffset_zero s
    · rfl
  map_injective source := by
    split
    · exact (rawOffset_strictMono s).injective
    · exact Function.injective_id

theorem map_withReturns_self (name : String) (s : List Char) :
    (withReturns name s).map name = rawOffset s := if_pos rfl

theorem map_withReturns_of_ne {n : String} (h : n ≠ name) (s : List Char) :
    (withReturns name s).map n = id := if_neg h

theorem ne_of_contains_insert {n : String} (h : (sources.insert name text).contains n = false) :
    name ≠ n := fun heq => by
  rw [(Table.contains_insert ..).2 (.inl heq)] at h
  cases h

section Returns

variable {content : String} (hpairs : pairsReturns content.toList = true)
include hpairs

/-- A text with carriage returns has everything where the text without them has it. -/
theorem positionAt_withReturns (name : String) (offset : Int) :
    (LineIndex.ofString content).positionAt ((withReturns name content.toList).offset name offset) =
      (LineIndex.ofString (String.ofList (normaliseNewlines content.toList))).positionAt offset := by
  have hposition (n : Nat) := LineIndex.positionAt_rawOffset hpairs n
  unfold LineIndex.ofString
  rw [String.toList_ofList]
  cases offset with
  | ofNat n =>
    show LineIndex.positionAt _ ((withReturns name content.toList).map name n : Nat) = _
    rw [map_withReturns_self]
    exact hposition n
  | negSucc n =>
    have hfirst := hposition 0
    rw [rawOffset_zero] at hfirst
    exact hfirst

/-- The text with its carriage returns is another spelling of the one without them. -/
theorem respelled_withReturns (hconfiguration : ws'.configuration = ws.configuration)
    (hbase : ws'.base = ws.base) (sources : Table String String) :
    (ws.origin env (sources.insert name (String.ofList (normaliseNewlines content.toList)))).Respelled
      (withReturns name content.toList) (ws'.origin env (sources.insert name content)) where
  rules := congrArg Configuration.remappings hconfiguration
  keys := by
    show (sources.insert name _).keys = (sources.insert name _).keys
    rw [Table.keys_insert, Table.keys_insert]
  text n t t' ht ht' := by
    replace ht : (sources.insert name _).find? n = some t := ht
    replace ht' : (sources.insert name _).find? n = some t' := ht'
    rw [Table.find?_insert] at ht ht'
    by_cases heq : name = n
    · rw [if_pos heq, Option.some.injEq] at ht ht'
      subst heq ht ht'
      rw [map_withReturns_self]
      exact respells_normaliseNewlines hpairs
    · rw [if_neg heq] at ht ht'
      obtain rfl := Option.some.inj (ht.symm.trans ht')
      rw [map_withReturns_of_ne (Ne.symm heq)]
      exact .refl t
  answer n hn := by
    have hne := ne_of_contains_insert hn
    show answer env.files ws' _ sourceKind n = answer env.files ws _ sourceKind n
    rw [answer_congr env.files hconfiguration hbase]
    simp only [answer, Table.find?_insert, if_neg hne]
  still n hn := map_withReturns_of_ne (Ne.symm (ne_of_contains_insert hn)) _

/-- In a source that keeps its offsets nothing is respelled. -/
theorem find?_insert_of_still {n : String} (h : (withReturns name content.toList).map n = id)
    (sources : Table String String) :
    (sources.insert name content).find? n =
      (sources.insert name (String.ofList (normaliseNewlines content.toList))).find? n := by
  rw [Table.find?_insert, Table.find?_insert]
  by_cases heq : name = n
  · subst heq
    rw [map_withReturns_self] at h
    rw [normaliseNewlines_of_rawOffset hpairs h, String.ofList_toList]
  · rw [if_neg heq, if_neg heq]

/-- All positions are kept. -/
theorem positionAt_insert (sources : Table String String) {n t t' : String}
    (ht : (sources.insert name (String.ofList (normaliseNewlines content.toList))).find? n = some t)
    (ht' : (sources.insert name content).find? n = some t') (offset : Int) :
    (LineIndex.ofString t').positionAt ((withReturns name content.toList).offset n offset) =
      (LineIndex.ofString t).positionAt offset := by
  rw [Table.find?_insert] at ht ht'
  by_cases heq : name = n
  · rw [if_pos heq, Option.some.injEq] at ht ht'
    subst heq ht ht'
    exact positionAt_withReturns hpairs name offset
  · rw [if_neg heq] at ht ht'
    obtain rfl := Option.some.inj (ht.symm.trans ht')
    rw [Shift.offset_of_id (map_withReturns_of_ne (Ne.symm heq) _)]

end Returns

/-! ## Opening the copy of a file -/

/-- An opened document is a copy of the file at an absolute path: it has the URI of the path, and the
text that the bytes of the file stand for, with its carriage returns. -/
structure IsCopyOf (files : FileSystem) (name : String) (d : Params.Opened) : Prop where
  absolute : (Path.ofString name).isAbsolute = true
  markless : Uri.hasAuthorityMark name.toList = false
  written : Uri.ofPath name = .ok d.uri
  named : sourceNameFor d.uri = .ok name
  content : ∃ place bytes, files.resolve? (Path.ofString name) = .ok place ∧
    files.readBytes place = .ok bytes ∧ decodeUtf8? bytes = some d.content.toList

variable {d : Params.Opened}

/-- A plain URI of a path is enough, together with the text. -/
theorem IsCopyOf.of_isPlain {files : FileSystem} {path : List Char}
    (hname : name = String.ofList ('/' :: path)) (huri : d.uri.toList = "file:///".toList ++ path)
    (hplain : ∀ c ∈ path, Uri.isPlain c = true) (hsingle : path.head? ≠ some '/')
    (hcontent : ∃ place bytes, files.resolve? (Path.ofString name) = .ok place ∧
      files.readBytes place = .ok bytes ∧ decodeUtf8? bytes = some d.content.toList) :
    IsCopyOf files name d := by
  have hrooted : name.toList = '/' :: path := by rw [hname, String.toList_ofList]
  have hcolon : ':' ∉ name.toList := by
    rw [hrooted]
    exact fun h => absurd (hplain ':' ((List.mem_cons.1 h).resolve_left (by decide))) (by decide)
  have hdrive : Uri.beginsWithDrive name.toList = false := by
    unfold Uri.beginsWithDrive
    split
    · next letter rest heq =>
      rw [heq] at hcolon
      simp at hcolon
    · rfl
  have hwritten : Uri.ofPath name = .ok d.uri := by
    have hcoded : Uri.encodePercent ('/' :: path) = '/' :: path :=
      Uri.encodePercent_of_isPlain (List.forall_mem_cons.2 ⟨by decide, hplain⟩)
    have hspelt : d.uri = String.ofList ("file://".toList ++ '/' :: path) := by
      rw [← String.ofList_toList (s := d.uri), huri]
      rfl
    rw [Uri.ofPath_eq (Uri.isWritten_below hrooted hsingle hdrive), hspelt]
    exact congrArg (fun coded => Except.ok (String.ofList ("file://".toList ++ coded))) hcoded
  refine ⟨?_, Uri.hasAuthorityMark_of_notMem hcolon, hwritten,
    sourceNameFor_ofPath hrooted hsingle hdrive hwritten, hcontent⟩
  rw [Path.isAbsolute_ofString_iff, hrooted]
  rfl

/-- What is read of the file is the text of the document without its carriage returns. -/
theorem IsCopyOf.text_eq {files : FileSystem} (h : IsCopyOf files name d)
    (hread : readDisk files ws name = .ok (.ok text)) :
    text = String.ofList (normaliseNewlines d.content.toList) := by
  obtain ⟨place, bytes, hresolve, hbytes, hdecode⟩ := h.content
  obtain ⟨p, hlocate, hresolve', -, htext⟩ := readDisk_eq_ok hread
  have hown : ws.locate name = .ok (Path.ofString name) := by simp [locate, h.absolute]
  obtain rfl := Except.ok.inj (hown.symm.trans hlocate)
  obtain rfl := Except.ok.inj (hresolve.symm.trans hresolve')
  simp only [FileSystem.readText, hbytes, bind, Except.bind, hdecode, Except.ok.injEq] at htext
  exact htext.symm

/-- A source that is read has the URI that its path has. -/
theorem IsCopyOf.uriFor_eq {files : FileSystem} (h : IsCopyOf files name d)
    (hnames : nameDocuments .empty .empty ws.store.toList = (k.uris, .ok sources))
    (hnew : sources.contains name = false) : (Workspace.empty.absorb k).uriFor name = .ok d.uri := by
  have huntracked : (Workspace.empty.absorb k).uris.find? name = none := by
    refine (find?_of_unnamed hnames fun d hd hname => ?_).1.trans rfl
    have hown := (contains_texts_iff hnames name).2 (.inr ⟨d, hd, hname⟩)
    rw [hnew] at hown
    cases hown
  simp only [uriFor, huntracked, h.markless, Bool.false_eq_true, if_false]
  exact h.written

/-- If a document is opened that is a copy of a file which a compilation reads, then this takes one more
step; the same is found, but for the handles, and at the offsets with carriage returns. -/
theorem exists_learn_tracking (henv : env.IsToy budget) (henv' : env'.IsToy budget')
    (hfiles : env'.files = env.files) (hbudget : budget < budget') (hformed : ws.store.IsFormed)
    (hlearn : ws.learn env = .ok k) (hread : k.readTexts.find? name = some text)
    (hcopy : IsCopyOf env.files name d) (hpairs : pairsReturns d.content.toList = true) :
    ∃ kept k', (ws.tracking d).learn env' = .ok k' ∧
      (∀ n, kept.program.units.contains n = k.program.units.contains n) ∧
      (∃ r, (∀ n, r.Near n ↔ k.program.units.contains n = true) ∧ k.Mirrors r kept) ∧
      kept.Displaced (withReturns name d.content.toList) k' := by
  obtain ⟨sources, exchanges, g, hgathered⟩ := exists_isGathered henv hlearn
  have hhands : (ws.origin env sources).Hands name text (ws.origin env (sources.insert name text)) :=
    (hgathered.hands henv hlearn hread rfl rfl rfl).2
  have htext := hcopy.text_eq (readDisk_of_answer ((Table.contains_eq_false_iff _ _).1 hhands.new)
    hhands.served)
  have hnames (content : String) :
      nameDocuments .empty .empty (ws.tracking { d with content }).store.toList =
        (k.uris.insert name d.uri, .ok (sources.insert name content)) :=
    nameDocuments_track hformed hgathered.named hcopy.named hhands.new d.language (some d.version) content
  -- The document is opened with the text that was read first, and then gets its own text.
  have hhanded : ∃ kept, (ws.tracking { d with content := text }).learn env' = .ok kept ∧
      (∀ n, kept.program.units.contains n = k.program.units.contains n) ∧
      ∃ r, (∀ n, r.Near n ↔ k.program.units.contains n = true) ∧ k.Mirrors r kept :=
    exists_mirrors_handed henv henv' hfiles hbudget hlearn hgathered.named hread
      (hcopy.uriFor_eq hgathered.named hhands.new) (hnames text) rfl rfl
  obtain ⟨kept, hkept, hcontains, hmirrors⟩ := hhanded
  subst htext
  have hdisplaced : ∃ k', (ws.tracking d).learn env' = .ok k' ∧
      kept.Displaced (withReturns name d.content.toList) k' :=
    exists_displaced henv' hkept (hnames _) (hnames d.content)
      (respelled_withReturns hpairs rfl rfl sources) (fun n hn => find?_insert_of_still hpairs hn sources)
      fun n t t' => positionAt_insert hpairs sources
  obtain ⟨k', hlearn', hdisplaced⟩ := hdisplaced
  exact ⟨kept, k', hlearn', hcontains, hmirrors, hdisplaced⟩

/-- A compilation shows the same of a document in two workspaces: it yields the same diagnostics for it
but for their order, and in the same order unless something else is shown in it; and if the document is
tracked in the first workspace, then its symbols have the same definitions. -/
structure ShownAlike (env : Environment) (uri : String) (ws ws' : Workspace) : Prop where
  diagnostics : SameUpToOrder ((compiledDiagnostics env uri).run ws).result
    ((compiledDiagnostics env uri).run ws').result
  ordered : ws.store.contains uri = true → ws.keepsApart env uri = true →
    ((compiledDiagnostics env uri).run ws').result = ((compiledDiagnostics env uri).run ws).result
  definition : ws.store.contains uri = true → ∀ p,
    ((query env Navigation.definition uri p).run ws'.afresh).result =
      ((query env Navigation.definition uri p).run ws.afresh).result

/-- The definition of a symbol, by a compilation. -/
theorem result_definition (henv : env.IsUniform) (ws : Workspace) (uri : String) (p : Position) :
    ((query env Navigation.definition uri p).run ws.afresh).result =
      ws.reply env View.definition uri p := by
  have hcurrent : ws.afresh.IsCurrent env none :=
    isCurrent_of_lt (fun s hs => by cases hs) fun n hn => by cases hn
  rw [result_query reads_definition hcurrent (by simp)]
  exact reply_congr henv (sameTask_afresh ws) ..

/-- What is read is not tracked. -/
theorem ne_of_tracked (henv : env.IsToy budget) (hformed : ws.store.IsFormed)
    (hlearn : ws.learn env = .ok k) (hread : k.readTexts.find? name = some text) {uri n : String}
    (htracked : ws.store.contains uri = true) (hname : sourceNameFor uri = .ok n) : n ≠ name := by
  obtain ⟨sources, exchanges, g, hgathered⟩ := exists_isGathered henv hlearn
  rintro rfl
  rw [hgathered.readTexts henv hlearn] at hread
  have hnew := contains_eq_false_of_read hread
  rw [contains_of_named hformed hgathered.named htracked hname] at hnew
  cases hnew

/-- If a document is opened that is a copy of a file which a compilation reads, then a compilation shows
the same of every document as before. -/
theorem shownAlike_tracking (henv : env.IsToy budget) (henv' : env'.IsToy budget')
    (hfiles : env'.files = env.files) (hbudget : budget < budget') (hformed : ws.store.IsFormed)
    (hlearn : ws.learn env = .ok k) (hread : k.readTexts.find? name = some text)
    (hcopy : IsCopyOf env.files name d) (hpairs : pairsReturns d.content.toList = true)
    (uri : String) : ShownAlike env' uri ws (ws.tracking d) := by
  obtain ⟨kept, k', hlearn', hcontains, ⟨r, hnear, hmirrors⟩, hdisplaced⟩ :=
    exists_learn_tracking henv henv' hfiles hbudget hformed hlearn hread hcopy hpairs
  have hbefore := learn_mono henv henv' hfiles (Nat.le_of_lt hbudget) hlearn
  have hwithin (n : String) (hn : kept.program.units.contains n = true) : r.Near n :=
    (hnear n).2 ((hcontains n).symm.trans hn)
  refine ⟨?_, fun htracked hapart => ?_, fun htracked p => ?_⟩
  · rw [result_compiledDiagnostics, result_compiledDiagnostics, hbefore, hlearn']
    show SameUpToOrder (k.diagnostics env'.reporter uri) (k'.diagnostics env'.reporter uri)
    rw [hdisplaced.diagnostics]
    exact hmirrors.sameUpToOrder_diagnostics (fun n => (hnear n).2) hwithin env'.reporter uri
  · obtain ⟨sources, hnames⟩ := named_of_learn hlearn
    obtain ⟨n, huri⟩ := exists_name_of_tracked hformed hnames htracked
    have hn : r.Near n := (hnear n).2 (contains_of_tracked henv hformed hlearn htracked huri)
    simp only [keepsApart, hbefore, huri] at hapart
    rw [result_compiledDiagnostics, result_compiledDiagnostics, hbefore, hlearn']
    show k'.diagnostics env'.reporter uri = k.diagnostics env'.reporter uri
    rw [hdisplaced.diagnostics]
    exact hmirrors.diagnostics hn hapart (hmirrors.keepsApart hwithin hapart)
  · obtain ⟨sources, hnames⟩ := named_of_learn hlearn
    obtain ⟨n, huri⟩ := exists_name_of_tracked hformed hnames htracked
    have hn : r.Near n := (hnear n).2 (contains_of_tracked henv hformed hlearn htracked huri)
    have hne : n ≠ name := ne_of_tracked henv hformed hlearn hread htracked huri
    rw [result_definition henv'.isUniform, result_definition henv'.isUniform]
    have htracked' : (ws.tracking d).store.contains uri = true :=
      DocumentStore.contains_insert_of_contains (s := ws.store) htracked _ _
    simp only [reply, htracked, htracked', hbefore, hlearn', huri]
    exact (hdisplaced.definition hmirrors.formed' (map_withReturns_of_ne hne _) p).trans
      (hmirrors.definition hn p)

end Workspace

end LanguageServer
