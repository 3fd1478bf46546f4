import LanguageServer.Proofs.Files.Climbing
import LanguageServer.Proofs.Settings.Remapping
import LanguageServer.Proofs.Toy.Directives
import LanguageServer.Proofs.Workspace.Confinement
import LanguageServer.Proofs.Workspace.Gathered
import LanguageServer.Proofs.Workspace.Precedence
import Mathlib.Data.Finset.Dedup
import Mathlib.Data.Finset.Order
import Mathlib.Logic.Relation

/-!
# Compilations that end

The toy engine recognises the sources that it has compiled by their names, and the disk
identifies files by where names lead.  Imports spell finitely many names, and what is seen
from the directory of an absolute name is an absolute normal form, of which there are two
for each file.  But there is a relative normal form for each number of steps back that
leads above the root.  So a compilation ends unless a source that is read under a relative
name imports what would lie above the root; and if it imports itself in this way, the
compilation does not end.

## Main definitions

* `Toy.Origin.LeadsTo` — the sources at hand lead to a name.
* `Workspace.Climbs` — a source imports what would lie above the root.
* `Workspace.StaysBelow` — no source does that is read in a compilation.

## Main statements

* `Workspace.exists_run_compile` — a compilation ends.
* `Workspace.result_compile_climbing` — one that does not.
-/

namespace LanguageServer

open Relation Text Toy

/-! ## What imports spell -/

namespace Toy

/-- The import paths that a text can spell, rewritten by any rule or by none. -/
def spellings (rules : List Remapping) (text : String) : List String :=
  (tokens text.toList).flatMap fun t =>
    Parser.unquoted t.text :: rules.map fun r => normalisePath (r.apply (Parser.unquoted t.text))

/-- What is imported by a text is spelled by it. -/
theorem mem_spellings {source text path : String} {span : Span} {target : Option String}
    (h : .importing path span target ∈ (parseAlone source text).1.items) (rules : List Remapping)
    (importer : String) : remapPath rules importer path ∈ spellings rules text := by
  obtain ⟨⟨t, ht, rfl⟩, -⟩ :=
    parseFile_directed source text Draft.isCounted_empty _ h _ _ _ rfl
  refine List.mem_flatMap.2 ⟨t, ht, ?_⟩
  rcases remapPath_cases rules importer (Parser.unquoted t.text) with hpath | ⟨r, hr, hpath⟩
  · rw [hpath]
    exact List.mem_cons_self
  · rw [hpath]
    exact List.mem_cons_of_mem _ (List.mem_map_of_mem hr)

namespace Origin

variable {o : Origin} {n m : String}

/-- The sources that are handed over lead to a name by imports. -/
def LeadsTo (o : Origin) (n : String) : Prop :=
  ∃ m, o.sources.contains m = true ∧ ReflTransGen (fun a b => b ∈ o.imports a) m n

theorem LeadsTo.import (h : o.LeadsTo n) (hm : m ∈ o.imports n) : o.LeadsTo m := by
  obtain ⟨first, hfirst, hpath⟩ := h
  exact ⟨first, hfirst, hpath.tail hm⟩

/-- An import is one that the text of its source spells. -/
theorem exists_of_mem_imports (h : m ∈ o.imports n) :
    ∃ text path span target, o.text? n = some text ∧
      .importing path span target ∈ (parseAlone n text).1.items ∧
        m = resolveImport o.rules n path := by
  obtain ⟨text, htext⟩ := Option.isSome_iff_exists.1 (has_of_mem_imports h)
  have halone : o.alone n = parseAlone n text := by
    rw [alone, htext]
    rfl
  rw [imports, if_pos (has_of_mem_imports h)] at h
  obtain ⟨i, hi, hsource⟩ := List.mem_filterMap.1 h
  cases i with
  | importing path span target =>
    obtain ⟨rfl, spelled, hspelled⟩ := mem_items_unit hi
    exact ⟨text, path, span, spelled, htext, halone ▸ hspelled, (Option.some.inj hsource).symm⟩
  | function f => cases hsource
  | statement s => cases hsource

/-- The same origin, but no answer is a fault. -/
def lenient (o : Origin) : Origin where
  sources := o.sources
  rules := o.rules
  answer kind path :=
    match o.answer kind path with
    | .ok outcome => .ok outcome
    | .error _ => .ok (.error (.noBase path))

theorem answer_lenient {kind path : String} {outcome : ReadOutcome}
    (h : o.answer kind path = .ok outcome) : o.lenient.answer kind path = .ok outcome := by
  simp [lenient, h]

theorem exists_answer_lenient (o : Origin) (path : String) :
    ∃ outcome, o.lenient.answer sourceKind path = .ok outcome := by
  cases hanswer : o.answer sourceKind path <;> simp [lenient, hanswer]

/-- An answer that is a fault has no text either. -/
theorem sameTexts_lenient (o : Origin) : o.SameTexts (fun _ => True) o.lenient where
  rules := rfl
  text? n _ := by
    cases hanswer : o.answer sourceKind n <;> simp [text?, lenient, hanswer]
  closed _ _ _ _ := trivial

end Origin

end Toy

/-! ## Names in normal form -/

/-- A name is the text of a normal form with at most so many steps back. -/
def IsTame (most : Nat) (name : String) : Prop :=
  ∃ p ups plain, Path.IsReduced p ups plain ∧ ups ≤ most ∧ name = p.toString

theorem isTame_normalisePath {most : Nat} {s : String}
    (h : (Path.ofString s).isAbsolute = false →
      (Path.ofString s).normalise.parts.count ".." ≤ most) : IsTame most (normalisePath s) := by
  obtain ⟨ups, plain, hreduced⟩ :=
    Path.exists_isReduced_normalise fun _ => Path.isPart_of_mem_ofString (s := s)
  refine ⟨_, ups, plain, hreduced, ?_, rfl⟩
  cases habsolute : (Path.ofString s).isAbsolute with
  | true => exact hreduced.rooted habsolute ▸ Nat.zero_le most
  | false => exact hreduced.count ▸ h habsolute

namespace Workspace

variable {files : FileSystem} {env : Environment} {ws : Workspace} {name path text : String}
  {most : Nat}

/-! ## Where sources are read -/

/-- A source that is served from disk is read where its name leads. -/
theorem isReadAt_of_readDisk (hlinks : files.links = .empty)
    (h : readDisk files ws name = .ok (.ok text)) :
    ∃ p, ws.locate name = .ok p ∧ IsReadAt files ws name text (files.resolve p) := by
  obtain ⟨p, hlocate, -, -, hread⟩ := readDisk_eq_ok h
  obtain ⟨hplace, hheld⟩ := FileSystem.readText_eq_ok hread
  have hcanonical : files.IsCanonical (files.resolve p) :=
    FileSystem.isCanonical_resolve (by rw [FileSystem.resolution_of_linkless hlinks])
  have hresolve := FileSystem.resolve_of_isCanonical hcanonical
  exact ⟨p, hlocate, ⟨p, hlocate, hresolve.symm⟩, hcanonical, hresolve ▸ hheld⟩

/-- How many components there are in front of what is seen from the base. -/
def baseDepth (files : FileSystem) (ws : Workspace) : Nat :=
  ws.base.elim 0 fun base => (files.resolve base).parts.length

/-- The names in normal form under which a file can be read, if not more steps back are taken. -/
def tameNames (files : FileSystem) (ws : Workspace) (most : Nat) (place : List String) : List String :=
  Path.toString ⟨.root, place⟩ :: Path.toString ⟨.doubleRoot, place⟩ ::
    (List.range (most + 1)).map fun ups =>
      Path.toString ⟨.relative, List.replicate ups ".." ++ place.drop (ws.baseDepth files - ups)⟩

/-- There are finitely many normal forms under which files can be read. -/
theorem mem_tameNames (hlinks : files.links = .empty) (htame : IsTame most name)
    (hread : readDisk files ws name = .ok (.ok text)) :
    name ∈ files.files.keys.flatMap (tameNames files ws most) := by
  obtain ⟨p, ups, plain, hreduced, hups, rfl⟩ := htame
  obtain ⟨located, hlocate, hplace⟩ := isReadAt_of_readDisk hlinks hread
  obtain ⟨bytes, characters, hbytes, -⟩ := hplace.held
  refine List.mem_flatMap.2 ⟨(files.resolve located).parts,
    (Table.contains_iff_mem_keys _ _).1 (by simp [Table.contains, hbytes]), ?_⟩
  simp only [locate, Path.ofString_toString hreduced.isPart] at hlocate
  cases habsolute : p.isAbsolute with
  | true =>
    simp only [habsolute, if_true, Except.ok.injEq] at hlocate
    subst hlocate
    rw [FileSystem.parts_resolve_of_isAbsolute hlinks hreduced habsolute]
    obtain ⟨anchor, parts⟩ := p
    cases anchor with
    | relative => cases habsolute
    | root => exact List.mem_cons_self
    | doubleRoot => exact List.mem_cons_of_mem _ List.mem_cons_self
  | false =>
    simp only [habsolute, Bool.false_eq_true, if_false] at hlocate
    cases hbase : ws.base with
    | none => simp [hbase] at hlocate
    | some base =>
      simp only [hbase, Except.ok.injEq] at hlocate
      subst hlocate
      refine List.mem_cons_of_mem _ (List.mem_cons_of_mem _ (List.mem_map.2
        ⟨ups, List.mem_range.2 (by omega), ?_⟩))
      have hanchor : p.anchor = .relative := by simpa [Path.isAbsolute] using habsolute
      have hdepth : ws.baseDepth files = (files.resolve base).parts.length := by
        simp [baseDepth, hbase]
      rw [FileSystem.parts_resolve_join hlinks hreduced habsolute, List.drop_left' (by simp [hdepth]),
        ← hreduced.parts, ← hanchor]

/-! ## Climbing -/

/-- A source is read under a relative name, and imports by a path relative to its directory what would
lie above the root. -/
structure Climbs (files : FileSystem) (ws : Workspace) (name path : String) : Prop where
  relative : (Path.ofString name).isAbsolute = false
  directed : isRelativeImport (remapPath ws.configuration.remappings name path) = true
  above : ∃ text place span target, readDisk files ws name = .ok (.ok text) ∧
    IsReadAt files ws name text place ∧
      .importing path span target ∈ (parseAlone name text).1.items ∧
        (Path.ofString (remapPath ws.configuration.remappings name path)).LeadsAbove
          place.parts.dropLast

/-- No source climbs that the documents lead to and that is read from disk. -/
def StaysBelow (env : Environment) (ws : Workspace) : Prop :=
  ∀ uris sources, nameDocuments .empty .empty ws.store.toList = (uris, .ok sources) →
    ∀ name, (ws.origin env sources).LeadsTo name → sources.contains name = false →
      ∀ path, ¬ ws.Climbs env.files name path

/-- Where a source in normal form leads by a relative path, if it does not climb. -/
theorem isTame_resolveImport (hlinks : files.links = .empty) (htame : IsTame most name)
    (hmost : ws.baseDepth files ≤ most) (hread : readDisk files ws name = .ok (.ok text))
    {span : Span} {target : Option String}
    (himport : .importing path span target ∈ (parseAlone name text).1.items)
    (hclimbs : ¬ ws.Climbs files name path)
    (hrelative : isRelativeImport (remapPath ws.configuration.remappings name path) = true) :
    IsTame most (resolveImport ws.configuration.remappings name path) := by
  obtain ⟨cs, hcs⟩ := isRelativeImport_cons hrelative
  obtain ⟨p, ups, plain, hreduced, hups, rfl⟩ := htame
  have hname := Path.ofString_toString hreduced.isPart
  simp only [resolveImport, hrelative, if_true]
  refine isTame_normalisePath fun hjoined => ?_
  have habsolute : p.isAbsolute = false := by
    rw [Bool.eq_false_iff]
    intro habsolute
    rw [Path.isAbsolute_joined (by rw [hname, habsolute])] at hjoined
    cases hjoined
  have hanchor : p.anchor = .relative := by simpa [Path.isAbsolute] using habsolute
  obtain ⟨located, hlocate, hplace⟩ := isReadAt_of_readDisk hlinks hread
  simp only [locate, hname, habsolute, Bool.false_eq_true, if_false] at hlocate
  cases hbase : ws.base with
  | none => simp [hbase] at hlocate
  | some base =>
    simp only [hbase, Except.ok.injEq] at hlocate
    subst hlocate
    have hbelow : ¬ (Path.ofString (remapPath ws.configuration.remappings p.toString path)).LeadsAbove
        (files.resolve (base.join p)).parts.dropLast := fun habove =>
      hclimbs ⟨by rw [hname, habsolute], hrelative, text, _, span, target, hread, hplace, himport,
        habove⟩
    have hcount := FileSystem.count_joined_le hlinks hreduced habsolute hbelow
    have hdepth : ws.baseDepth files = (files.resolve base).parts.length := by
      simp [baseDepth, hbase]
    rw [Path.ofString_joined hcs hreduced.isPart hanchor]
    omega

/-! ## What is gathered -/

section

variable {uris sources : Table String String} {n m : String}

/-- The texts that a compilation can come across. -/
def textsAt (files : FileSystem) (sources : Table String String) : List String :=
  sources.values ++ files.files.values.filterMap fun bytes =>
    (decodeUtf8? bytes).map fun characters => String.ofList (normaliseNewlines characters)

theorem readDisk_of_text? (hnew : sources.contains n = false)
    (h : (ws.origin env sources).text? n = some text) :
    readDisk env.files ws n = .ok (.ok text) := by
  have hnone := (Table.contains_eq_false_iff _ _).1 hnew
  have hnone' : (ws.origin env sources).sources.find? n = none := hnone
  unfold Origin.text? at h
  simp only [hnone'] at h
  split at h
  · next hanswer =>
    obtain rfl := Option.some.inj h
    exact readDisk_of_answer hnone hanswer
  · cases h

theorem mem_textsAt (hlinks : env.files.links = .empty)
    (h : (ws.origin env sources).text? n = some text) : text ∈ textsAt env.files sources := by
  cases hgiven : sources.contains n with
  | true =>
    obtain ⟨text', hfind⟩ := Option.isSome_iff_exists.1 hgiven
    have htext : (ws.origin env sources).text? n = some text' := by
      simp [Origin.text?, origin, hfind]
    obtain rfl := Option.some.inj (h.symm.trans htext)
    exact List.mem_append_left _ (List.mem_map_of_mem (Table.mem_entries_of_find? hfind))
  | false =>
    obtain ⟨p, -, hplace⟩ := isReadAt_of_readDisk hlinks (readDisk_of_text? hgiven h)
    obtain ⟨bytes, characters, hbytes, hdecode, rfl⟩ := hplace.held
    refine List.mem_append_right _ (List.mem_filterMap.2
      ⟨bytes, List.mem_map_of_mem (Table.mem_entries_of_find? hbytes), ?_⟩)
    rw [hdecode]
    rfl

/-- The names that documents have or that imports can spell. -/
def givenNames (env : Environment) (ws : Workspace) (sources : Table String String) : List String :=
  sources.keys ++ (textsAt env.files sources).flatMap (spellings ws.configuration.remappings)

theorem contains_eq_false_of_notMem (h : n ∉ ws.givenNames env sources) :
    sources.contains n = false := by
  rw [Bool.eq_false_iff]
  exact fun hsource => h (List.mem_append_left _ ((Table.contains_iff_mem_keys _ _).1 hsource))

/-- Names that are given, or in normal form and not far above the root, lead to such names. -/
theorem mem_givenNames_or_isTame (hlinks : env.files.links = .empty)
    (hdepth : ws.baseDepth env.files ≤ most)
    (hmost : ∀ n ∈ ws.givenNames env sources, ∀ path ∈ ws.givenNames env sources,
      (Path.ofString (joinPaths (directoryOf n) path)).normalise.parts.count ".." ≤ most)
    (hclimbs : sources.contains n = false → ∀ path, ¬ ws.Climbs env.files n path)
    (hn : n ∈ ws.givenNames env sources ∨ IsTame most n)
    (hm : m ∈ (ws.origin env sources).imports n) :
    m ∈ ws.givenNames env sources ∨ IsTame most m := by
  obtain ⟨text, path, span, target, htext, himport, rfl⟩ := Origin.exists_of_mem_imports hm
  have hpath : remapPath ws.configuration.remappings n path ∈ ws.givenNames env sources :=
    List.mem_append_right _ (List.mem_flatMap.2 ⟨text, mem_textsAt hlinks htext,
      mem_spellings himport _ _⟩)
  show resolveImport ws.configuration.remappings n path ∈ _ ∨
    IsTame most (resolveImport ws.configuration.remappings n path)
  cases hrelative : isRelativeImport (remapPath ws.configuration.remappings n path) with
  | false => exact .inl (by simpa [resolveImport, hrelative] using hpath)
  | true =>
    right
    by_cases hgiven : n ∈ ws.givenNames env sources
    · simp only [resolveImport, hrelative, if_true]
      exact isTame_normalisePath fun _ => hmost n hgiven _ hpath
    · have hnew := contains_eq_false_of_notMem hgiven
      exact isTame_resolveImport hlinks (hn.resolve_left hgiven) hdepth
        (readDisk_of_text? hnew htext) himport (hclimbs hnew path) hrelative

/-- If nothing climbs, and questions that would be faults are answered in vain, all can be gathered. -/
theorem exists_gathers_lenient (hlinks : env.files.links = .empty)
    (hnames : nameDocuments .empty .empty ws.store.toList = (uris, .ok sources))
    (hstays : ws.StaysBelow env) :
    ∃ k exchanges g,
      Gathering.Gathers (ws.origin env sources).lenient k (.start sources) exchanges g := by
  have hsame := (ws.origin env sources).sameTexts_lenient
  obtain ⟨most, hmost⟩ := (ws.baseDepth env.files ::
    (ws.givenNames env sources).flatMap fun n => (ws.givenNames env sources).map fun path =>
      (Path.ofString (joinPaths (directoryOf n) path)).normalise.parts.count "..").toFinset.exists_le
  have hdepth : ws.baseDepth env.files ≤ most := hmost _ (by simp)
  have hcount : ∀ n ∈ ws.givenNames env sources, ∀ path ∈ ws.givenNames env sources,
      (Path.ofString (joinPaths (directoryOf n) path)).normalise.parts.count ".." ≤ most :=
    fun n hn path hpath => hmost _ (List.mem_toFinset.2 (List.mem_cons_of_mem _
      (List.mem_flatMap.2 ⟨n, hn, List.mem_map_of_mem hpath⟩)))
  -- Nothing is met but names that the documents lead to, given ones and tame ones.
  let Met (n : String) : Prop := (ws.origin env sources).LeadsTo n ∧
    (n ∈ ws.givenNames env sources ∨ IsTame most n)
  have hclosed : ∀ n, Met n → ∀ m ∈ (ws.origin env sources).lenient.imports n, Met m := by
    intro n hn m hm
    rw [hsame.imports trivial] at hm
    exact ⟨hn.1.import hm, mem_givenNames_or_isTame hlinks hdepth hcount
      (hstays uris sources hnames n hn.1) hn.2 hm⟩
  have hstart : ∀ n ∈ (Gathering.start sources).pending, Met n := by
    intro n hn
    have hsource : n ∈ sources.keys := by simpa [Gathering.start] using hn
    exact ⟨⟨n, (Table.contains_iff_mem_keys _ _).2 hsource, .refl⟩,
      .inl (List.mem_append_left _ hsource)⟩
  have hreadable : ∀ n, Met n → (ws.origin env sources).lenient.has n = true →
      (Gathering.start sources).units.contains n = true ∨ n ∈ (ws.givenNames env sources ++
        env.files.files.keys.flatMap (tameNames env.files ws most)).dedup := by
    intro n hn hhas
    rw [hsame.has trivial] at hhas
    obtain ⟨text, htext⟩ := Option.isSome_iff_exists.1 hhas
    refine .inr (List.mem_dedup.2 (List.mem_append.2 ?_))
    by_cases hgiven : n ∈ ws.givenNames env sources
    · exact .inl hgiven
    · exact .inr (mem_tameNames hlinks (hn.2.resolve_left hgiven)
        (readDisk_of_text? (contains_eq_false_of_notMem hgiven) htext))
  obtain ⟨k, -, exchanges, g, h⟩ := Gathering.exists_gathers hclosed
    (fun _ _ m _ _ => (ws.origin env sources).exists_answer_lenient m) (.start _) (.empty _) hstart
    (List.nodup_dedup _) hreadable (Nat.le_refl _)
  exact ⟨k, exchanges, g, h⟩

/-! ## Compiling -/

/-- If nothing climbs, the questions of a compilation and its end are the same for all budgets but too
small ones, and it fails only at a path. -/
theorem exists_inquire (hlinks : env.files.links = .empty)
    (hnames : nameDocuments .empty .empty ws.store.toList = (uris, .ok sources))
    (hstays : ws.StaysBelow env) :
    ∃ enough found,
      (∀ env' budget, env'.files = env.files → env'.IsToy budget → enough ≤ budget →
        ws.inquire env' sources = found) ∧
      ∀ f, found.2 = .error f → ∃ e, f = .path e := by
  obtain ⟨enough, exchanges, g, hgathers⟩ := exists_gathers_lenient hlinks hnames hstays
  refine ⟨enough, Compiling.breakOff (ws.answer env.files sources) (bindAll g) exchanges,
    fun env' budget hfiles htoy hbudget => ?_, fun f hf => ?_⟩
  · unfold inquire
    rw [htoy, hfiles]
    exact Compiling.converse_eq_breakOff (fun _ _ _ => (ws.origin env sources).answer_lenient)
      (Gathering.converse_compile_eq_ok_iff.2 ⟨g, rfl, enough, hbudget, hgathers⟩)
  · obtain ⟨x, -, hanswer⟩ := Compiling.exists_of_breakOff hf
    exact answer_eq_path hanswer

/-- A compilation over the disk ends.  Over a file system without links, whatever the documents, the
root, the include paths and the remappings are: if no source climbs that the documents lead to and
that is read from disk, then there are finitely many questions of the engine, and from some budget on
all budgets of it make the same of them.  The compilation yields a program then, unless the
documents cannot be named or the name of an import is no path. -/
theorem exists_run_compile (hlinks : env.files.links = .empty) (hstays : ws.StaysBelow env) :
    ∃ enough said result state,
      (∀ env' budget, env'.files = env.files → env'.IsToy budget → enough ≤ budget →
        ((compile env').run ws).said.map (·.1) = said ∧
          ((compile env').run ws).result = result ∧ ((compile env').run ws).state = state) ∧
      ∀ f, result = .error f → (∃ e, f = .uri e) ∨ ∃ e, f = .path e := by
  cases hnames : nameDocuments .empty .empty ws.store.toList with
  | mk uris named =>
    cases named with
    | error e =>
      refine ⟨0, [], .error (.uri e), { ws with uris }, fun env' budget _ _ _ => ?_, fun f hf => ?_⟩
      · rw [run_compile_of_unnamed _ hnames]
        exact ⟨rfl, rfl, rfl⟩
      · exact .inl ⟨e, (Except.error.inj hf).symm⟩
    | ok sources =>
      obtain ⟨enough, found, hinquire, hfault⟩ := exists_inquire hlinks hnames hstays
      let reference : Environment := { env with engines := fun _ => Toy.engine enough }
      have hreference : ws.inquire reference sources = found :=
        hinquire reference enough rfl (fun _ => rfl) (Nat.le_refl _)
      refine ⟨enough, ((compile reference).run ws).said.map (·.1), ((compile reference).run ws).result,
        ((compile reference).run ws).state, fun env' budget hfiles htoy hbudget => ?_, ?_⟩
      · have hsame : ws.inquire env' sources = ws.inquire reference sources :=
          (hinquire env' budget hfiles htoy hbudget).trans hreference.symm
        exact run_compile_congr hnames (by rw [htoy]; rfl) hsame
      · intro f hf
        rw [(run_compile reference hnames).2.1, hreference] at hf
        exact .inr (hfault f hf)

end

/-- What the files of a file system spell tells that nothing climbs. -/
theorem staysBelow_of_files
    (h : ∀ e ∈ env.files.files.entries, ∀ characters ∈ decodeUtf8? e.2,
      ∀ path ∈ spellings ws.configuration.remappings (String.ofList (normaliseNewlines characters)),
        isRelativeImport path = true → ¬ (Path.ofString path).LeadsAbove e.1.dropLast) :
    ws.StaysBelow env := by
  rintro - sources - name - - path ⟨-, hdirected, text, place, span, target, -, hplace, himport, habove⟩
  obtain ⟨bytes, characters, hbytes, hdecode, rfl⟩ := hplace.held
  exact h _ (Table.mem_entries_of_find? hbytes) characters hdecode _ (mem_spellings himport _ _)
    hdirected habove

/-- A larger budget does not change what is compiled. -/
theorem result_compile_of_le {env' : Environment} {budget budget' : Nat}
    (hfiles : env'.files = env.files) (htoy : env.IsToy budget) (htoy' : env'.IsToy budget')
    (hle : budget ≤ budget') {program : Program}
    (h : ((compile env).run ws).result = .ok program) :
    ((compile env').run ws).result = .ok program := by
  cases hnames : nameDocuments .empty .empty ws.store.toList with
  | mk uris named =>
    cases named with
    | error e =>
      rw [run_compile_of_unnamed _ hnames] at h
      cases h
    | ok sources =>
      rw [(run_compile env hnames).2.1] at h
      rw [(run_compile env' hnames).2.1]
      unfold inquire at h ⊢
      rw [htoy] at h
      rw [htoy', hfiles]
      exact congrArg Prod.snd (Gathering.converse_compile_of_le hle (Prod.ext rfl h))

/-- Files below the root that import each other and themselves by steps back. -/
def circlingFiles : FileSystem where
  files := .ofList
    [(["w", "x.toy"], encodeUtf8 "import \"./lib/y.toy\"; import \"../w/x.toy\";".toList),
      (["w", "lib", "y.toy"], encodeUtf8 "import \"../x.toy\"; import \"../../w//lib/y.toy\";".toList)]
  links := .empty
  workingDirectory := []

/-- The toy engine over these files. -/
def circlingEnvironment (budget : Nat) : Environment :=
  ⟨circlingFiles, fun _ => Toy.engine budget, "toy"⟩

theorem isToy_circling (budget : Nat) : (circlingEnvironment budget).IsToy budget := fun _ => rfl

/-- A document that imports one of the files by a path that is seen from the root. -/
def circlingWorkspace : Workspace :=
  { Workspace.empty with
    store := DocumentStore.empty.track "file:///w/m.toy" (.str "toy") none "import \"x.toy\";"
    base := some (.ofString "/w") }

/-- Each file is compiled under two names, and then the compilation ends. -/
theorem exists_run_compile_circling : ∃ enough program,
    (∀ budget, enough ≤ budget →
      ((compile (circlingEnvironment budget)).run circlingWorkspace).result = .ok program) ∧
    program.units.keys = ["/w/m.toy", "x.toy", "lib/y.toy", "../w/x.toy", "../w/lib/y.toy"] := by
  have hlinks : (circlingEnvironment 20).files.links = .empty := rfl
  have hstays : circlingWorkspace.StaysBelow (circlingEnvironment 20) :=
    staysBelow_of_files (by decide +kernel)
  obtain ⟨enough, said, result, state, hends, -⟩ := exists_run_compile hlinks hstays
  have hkeys : ((compile (circlingEnvironment 20)).run circlingWorkspace).result.map
      (·.units.keys) =
        .ok ["/w/m.toy", "x.toy", "lib/y.toy", "../w/x.toy", "../w/lib/y.toy"] := by
    decide +kernel
  cases hresult : ((compile (circlingEnvironment 20)).run circlingWorkspace).result with
  | error f =>
    rw [hresult] at hkeys
    cases hkeys
  | ok program =>
    rw [hresult] at hkeys
    have hfiles (budget : Nat) :
        (circlingEnvironment budget).files = (circlingEnvironment 20).files := rfl
    have hlarge := result_compile_of_le (hfiles (max enough 20)) (isToy_circling 20)
      (isToy_circling _) (Nat.le_max_right enough 20) hresult
    have hsame := hends (circlingEnvironment (max enough 20)) _ (hfiles _) (isToy_circling _)
      (Nat.le_max_left enough 20)
    refine ⟨enough, program, fun budget hbudget => ?_, Except.ok.inj hkeys⟩
    rw [(hends (circlingEnvironment budget) budget (hfiles _) (isToy_circling budget) hbudget).2.1,
      ← hsame.2.1, hlarge]

/-! ## A compilation that does not end -/

/-- A file that imports itself from above the root. -/
def climbingFiles : FileSystem where
  files := .ofList [(["x.toy"], encodeUtf8 "import \"../x.toy\";".toList)]
  links := .empty
  workingDirectory := []

/-- The toy engine over this file. -/
def climbingEnvironment (budget : Nat) : Environment :=
  ⟨climbingFiles, fun _ => Toy.engine budget, "toy"⟩

/-- A document that imports the file by a path that is seen from the root. -/
def climbingWorkspace : Workspace :=
  { Workspace.empty with
    store := DocumentStore.empty.track "file:///m.toy" (.str "toy") none "import \"x.toy\";"
    base := some (.ofString "/") }

/-- The name of the document with its text. -/
def climbingSources : Table String String := .ofList [("/m.toy", "import \"x.toy\";")]

/-- The path of the file with some steps back in front. -/
def climber (ups : Nat) : Path := ⟨.relative, List.replicate ups ".." ++ ["x.toy"]⟩

/-- The sources that are compiled one after the other. -/
def climbingNames : Nat → String
  | 0 => "/m.toy"
  | ups + 1 => (climber ups).toString

theorem isReduced_climber (ups : Nat) : (climber ups).IsReduced ups ["x.toy"] where
  parts := rfl
  plain part hpart := by
    obtain rfl := List.mem_singleton.1 hpart
    exact ⟨by decide, by decide, by decide, by decide⟩
  rooted := nofun

theorem ofString_climber (ups : Nat) : Path.ofString (climber ups).toString = climber ups :=
  Path.ofString_toString (isReduced_climber ups).isPart

theorem injective_climbingNames : Function.Injective climbingNames := by
  have hlength (ups : Nat) : (Path.ofString (climbingNames (ups + 1))).parts.length = ups + 1 := by
    show (Path.ofString (climber ups).toString).parts.length = _
    rw [ofString_climber]
    simp [climber]
  have hanchor (ups : Nat) : (Path.ofString (climbingNames (ups + 1))).anchor = .relative := by
    show (Path.ofString (climber ups).toString).anchor = _
    rw [ofString_climber]
    rfl
  have hdocument : (Path.ofString (climbingNames 0)).anchor = .root := by decide
  intro a b h
  cases a with
  | zero =>
    cases b with
    | zero => rfl
    | succ b =>
      have := hanchor b
      rw [← h, hdocument] at this
      cases this
  | succ a =>
    cases b with
    | zero =>
      have := hanchor a
      rw [h, hdocument] at this
      cases this
    | succ b => rw [← hlength a, ← hlength b, h]

/-- The file is read under each of the names. -/
theorem readDisk_climber (ups : Nat) :
    readDisk climbingFiles climbingWorkspace (climber ups).toString =
      .ok (.ok "import \"../x.toy\";") := by
  have hlocate : climbingWorkspace.locate (climber ups).toString =
      .ok ((Path.ofString "/").join (climber ups)) := by
    unfold locate
    rw [ofString_climber]
    rfl
  have hlinks : climbingFiles.links = .empty := rfl
  have hparts := FileSystem.parts_resolve_join hlinks (isReduced_climber ups) rfl (.ofString "/")
  have hbase : (climbingFiles.resolve (.ofString "/")).parts = [] := by decide +kernel
  rw [hbase] at hparts
  have hresolve : climbingFiles.resolve ((Path.ofString "/").join (climber ups)) =
      ⟨.root, ["x.toy"]⟩ := by
    rw [show climbingFiles.resolve ((Path.ofString "/").join (climber ups)) =
      ⟨.root, (climbingFiles.resolve ((Path.ofString "/").join (climber ups))).parts⟩ from rfl, hparts]
    simp
  have hnul : ((Path.ofString "/").join (climber ups)).hasNul = false := by
    have hroot : Path.ofString "/" = ⟨.root, []⟩ := by decide +kernel
    rw [hroot]
    simp [Path.join, climber, Path.isAbsolute, Path.hasNul]
  have hmay : climbingWorkspace.mayRead ⟨.root, ["x.toy"]⟩ = true := by decide +kernel
  have htext : climbingFiles.readText ⟨.root, ["x.toy"]⟩ = .ok "import \"../x.toy\";" := by
    decide +kernel
  unfold readDisk
  simp [hlocate, FileSystem.resolve?, hnul, hresolve, hmay, htext, bind, Except.bind, pure,
    Except.pure]

/-- Where the file leads under each of the names. -/
theorem resolveImport_climber (ups : Nat) :
    resolveImport [] (climber ups).toString "../x.toy" = (climber (ups + 1)).toString := by
  have hparts : (Path.ofString "../x.toy").parts = ["..", "x.toy"] := by decide +kernel
  have hdirectory : (climber ups).parts.dropLast = List.replicate ups ".." := by simp [climber]
  have hnormal : (Path.normalise ⟨.relative, List.replicate ups ".." ++ ["..", "x.toy"]⟩).parts =
      List.replicate (ups + 1) ".." ++ ["x.toy"] := by
    have hrelative (parts : List String) : Path.isAbsolute ⟨.relative, parts⟩ = false := rfl
    have hups := Path.foldl_pushPart_replicate 0 ups
    simp only [List.replicate_zero, Nat.zero_add] at hups
    simp only [Path.normalise, hrelative, List.foldl_append, hups, List.foldl_cons, List.foldl_nil,
      Path.pushPart_replicate]
    rw [Path.pushPart_of_ne (by decide), List.reverse_cons, List.reverse_replicate]
  have hpath : remapPath [] (climber ups).toString "../x.toy" = "../x.toy" := rfl
  have hrelative : isRelativeImport "../x.toy" = true := by decide +kernel
  simp only [resolveImport, hpath, hrelative, if_true, normalisePath]
  rw [Path.ofString_joined (t := "../x.toy") rfl (isReduced_climber ups).isPart rfl, hdirectory, hparts]
  exact congrArg (fun parts => Path.toString ⟨.relative, parts⟩) hnormal

/-- What a compilation of the document is handed, and how its questions are answered. -/
def climbingOrigin : Origin :=
  ⟨climbingSources, [], climbingWorkspace.answer climbingFiles climbingSources⟩

theorem find?_climbingSources (ups : Nat) :
    climbingSources.find? (climber ups).toString = none := by
  have hne : "/m.toy" ≠ (climber ups).toString := by
    intro heq
    have hanchor : (Path.ofString "/m.toy").anchor = .relative := by
      rw [heq, ofString_climber]
      rfl
    exact absurd hanchor (by decide +kernel)
  simp [climbingSources, Table.ofList, Table.find?_insert, hne]

theorem text?_climbingOrigin (ups : Nat) :
    climbingOrigin.text? (climber ups).toString = some "import \"../x.toy\";" := by
  simp [Origin.text?, climbingOrigin, answer, find?_climbingSources, readDisk_climber]

/-- Each of the sources imports the next one. -/
theorem imports_climbingOrigin (k : Nat) :
    climbingOrigin.imports (climbingNames k) = [climbingNames (k + 1)] := by
  cases k with
  | zero => decide +kernel
  | succ ups =>
    have htokens : tokens "import \"../x.toy\";".toList =
        [⟨.name, "import", ⟨0, 6⟩⟩, ⟨.string, "\"../x.toy\"", ⟨7, 17⟩⟩,
          ⟨.punctuation, ";", ⟨17, 18⟩⟩] := by
      decide +kernel
    have hitems (name : String) : (parseAlone name "import \"../x.toy\";").1.items =
        [.importing "../x.toy" ⟨0, 18⟩ none] := by
      simp only [parseAlone, parseFile, htokens]
      rfl
    have htext := text?_climbingOrigin ups
    show climbingOrigin.imports (climber ups).toString = [(climber (ups + 1)).toString]
    have hsource : (parseAlone (climber ups).toString "import \"../x.toy\";").1.source =
        (climber ups).toString := source_parseFile ..
    rw [Origin.imports, if_pos (by rw [Origin.has, htext]; rfl), Origin.unit, Origin.alone, htext]
    simp only [Option.getD_some, SourceFile.resolved, SourceFile.imports, hitems, hsource]
    exact congrArg ([·]) (resolveImport_climber ups)

/-- The document imports a file that imports itself from above the root, and the compilation does not
end, whatever the budget is. -/
theorem result_compile_climbing (budget : Nat) :
    ((compile (climbingEnvironment budget)).run climbingWorkspace).result = .error .endless := by
  obtain ⟨uris, hnames⟩ : ∃ uris,
      nameDocuments .empty .empty climbingWorkspace.store.toList = (uris, .ok climbingSources) :=
    ⟨_, by rfl⟩
  have hanswer (k : Nat) :
      ∃ outcome, climbingOrigin.answer sourceKind (climbingNames k) = .ok outcome := by
    cases k with
    | zero => exact ⟨.ok "import \"x.toy\";", by rfl⟩
    | succ ups =>
      refine ⟨.ok "import \"../x.toy\";", ?_⟩
      simp [climbingOrigin, climbingNames, answer, find?_climbingSources, readDisk_climber]
  have hrun := Gathering.converse_run_endless injective_climbingNames imports_climbingOrigin hanswer
    (.start climbingOrigin) (.empty _) (k := 0) (by rfl) (fun _ _ => by rfl) budget
  rw [(run_compile (climbingEnvironment budget) hnames).2.1]
  exact Gathering.converse_compile_eq_error hrun

end Workspace

end LanguageServer
