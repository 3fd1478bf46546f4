import LanguageServer.Proofs.Toy.Growth
import LanguageServer.Proofs.Toy.Outline

/-!
# Binding the units of a program

The units of a program are bound one after the other.  A unit that is bound leaves alone
what other units see of it, so every unit is bound among the units as they were read.  What
becomes of some units that look for no others depends on these units only: the other units
of the program may come and go.

## Main definitions

* `bindEach` — binding units one after the other, each among the units as they were read.
* `SameUnits` — the same units in two programs, but for the handles.
* `Matched` — the same types and findings of these units.

## Main statements

* `bindUnits_eq` — binding units is binding each.
* `matched_bindEach` — the same units are bound in the same way.
-/

namespace LanguageServer.Toy

/-! ## Binding each unit -/

/-- Binds units one after the other, each among the units as they were read. -/
def bindEach (units : Table String SourceFile) (c : Checker) :
    List String → Checker × List (String × SourceFile)
  | [] => (c, [])
  | name :: rest =>
    match units.find? name with
    | none => bindEach units c rest
    | some u =>
      let (c, u) := u.bind units c
      let (c, bound) := bindEach units c rest
      (c, (name, u) :: bound)

theorem bindEach_of_none {units : Table String SourceFile} {n : String}
    (h : units.find? n = none) (c : Checker) (rest : List String) :
    bindEach units c (n :: rest) = bindEach units c rest := by
  rw [bindEach, h]

theorem bindEach_of_some {units : Table String SourceFile} {n : String} {u : SourceFile}
    (h : units.find? n = some u) (c : Checker) (rest : List String) :
    bindEach units c (n :: rest) =
      ((bindEach units (u.bind units c).1 rest).1,
        (n, (u.bind units c).2) :: (bindEach units (u.bind units c).1 rest).2) := by
  rw [bindEach, h]

theorem bindEach_append (units : Table String SourceFile) (c : Checker) (l l' : List String) :
    bindEach units c (l ++ l') =
      ((bindEach units (bindEach units c l).1 l').1,
        (bindEach units c l).2 ++ (bindEach units (bindEach units c l).1 l').2) := by
  induction l generalizing c with
  | nil => rfl
  | cons n rest ih =>
    rw [List.cons_append]
    cases hu : units.find? n with
    | none => rw [bindEach_of_none hu, bindEach_of_none hu, ih]
    | some u => simp only [bindEach_of_some hu, ih, List.cons_append]

/-- Exactly the units are bound that are named and exist. -/
theorem mem_bindEach {units : Table String SourceFile} {c : Checker} {names : List String}
    {n : String} :
    n ∈ (bindEach units c names).2.map (·.1) ↔ n ∈ names ∧ units.contains n = true := by
  induction names generalizing c with
  | nil => simp [bindEach]
  | cons name rest ih =>
    cases hu : units.find? name with
    | none =>
      rw [bindEach_of_none hu, List.mem_cons, ih]
      refine ⟨fun h => ⟨.inr h.1, h.2⟩, fun h => ⟨h.1.resolve_left ?_, h.2⟩⟩
      rintro rfl
      simp [Table.contains, hu] at h
    | some u =>
      simp only [bindEach_of_some hu, List.map_cons, List.mem_cons, ih]
      refine ⟨fun h => h.elim (fun heq => ?_) fun h => ⟨.inr h.1, h.2⟩, fun h =>
        h.1.imp id fun hmem => ⟨hmem, h.2⟩⟩
      subst heq
      exact ⟨.inl rfl, by simp [Table.contains, hu]⟩

/-- Units are bound in the order in which they are named. -/
theorem sublist_bindEach (units : Table String SourceFile) (c : Checker) (names : List String) :
    ((bindEach units c names).2.map (·.1)).Sublist names := by
  induction names generalizing c with
  | nil => exact .slnil
  | cons name rest ih =>
    cases hu : units.find? name with
    | none =>
      rw [bindEach_of_none hu]
      exact (ih c).cons name
    | some u =>
      rw [bindEach_of_some hu]
      exact (ih _).cons_cons name

/-- Only the outlines of the other units matter to a unit. -/
theorem SourceFile.bind_congr {units units' : Table String SourceFile}
    (h : ∀ n, (units'.find? n).map SourceFile.outline = (units.find? n).map SourceFile.outline)
    (u : SourceFile) (c : Checker) : u.bind units' c = u.bind units c := by
  have hbrought : u.brought units' = u.brought units := by
    refine List.flatMap_congr fun i _ => ?_
    have hsame := congrArg (Option.map fun o : String × List (Option String × Option (Name × Int)) =>
      o.2.filterMap fun x => x.2.map fun d => declarationOf o.1 d.1 d.2) (h i.key)
    simp only [Option.map_map, Function.comp_def, ← SourceFile.declarations_eq_outline] at hsame
    rw [hsame]
  have hscope : importedScope units' u = importedScope units u := by
    rw [importedScope_eq, importedScope_eq, hbrought]
  unfold SourceFile.bind
  rw [hscope]

/-- Binding units is binding each of them. -/
theorem bindUnits_eq {units units' : Table String SourceFile} {names : List String}
    (hnodup : names.Nodup)
    (houtline : ∀ n, (units'.find? n).map SourceFile.outline =
      (units.find? n).map SourceFile.outline)
    (hnames : ∀ n ∈ names, units'.find? n = units.find? n) (c : Checker) :
    (bindUnits units' c names).1 = (bindEach units c names).1 ∧
      ∀ n, (bindUnits units' c names).2.find? n =
        (Table.findIn n (bindEach units c names).2).or (units'.find? n) := by
  induction names generalizing units' c with
  | nil => exact ⟨rfl, fun _ => rfl⟩
  | cons name rest ih =>
    obtain ⟨hnew, hrest⟩ := List.nodup_cons.1 hnodup
    have hfirst := hnames name List.mem_cons_self
    unfold bindUnits
    cases hu : units.find? name with
    | none =>
      rw [hfirst.trans hu, bindEach_of_none hu]
      exact ih hrest houtline (fun n hn => hnames n (List.mem_cons_of_mem _ hn)) c
    | some u =>
      rw [hfirst.trans hu, bindEach_of_some hu]
      simp only [u.bind_congr houtline c]
      have hbound := SourceFile.outline_bind units u c
      have hinserted (n : String) : ((units'.insert name (u.bind units c).2).find? n).map
          SourceFile.outline = (units.find? n).map SourceFile.outline := by
        rw [Table.find?_insert]
        split
        · next heq => rw [← heq, hu, Option.map_some, Option.map_some, hbound]
        · exact houtline n
      obtain ⟨hchecker, hfind⟩ := ih hrest hinserted
        (fun n hn => by
          have hne : name ≠ n := fun heq => hnew (heq ▸ hn)
          rw [Table.find?_insert, if_neg hne]
          exact hnames n (List.mem_cons_of_mem _ hn)) (u.bind units c).1
      refine ⟨hchecker, fun n => ?_⟩
      rw [hfind n, Table.find?_insert]
      simp only [Table.findIn]
      by_cases heq : name = n
      · subst heq
        have hnone : Table.findIn name (bindEach units (u.bind units c).1 rest).2 = none := by
          rw [← Option.not_isSome_iff_eq_none, Table.findIn_isSome_iff]
          exact fun hmem => hnew (mem_bindEach.1 hmem).1
        simp [hnone]
      · simp [heq]

theorem findIn_bindEach {units : Table String SourceFile} {c : Checker} {names : List String}
    {n : String} {v : SourceFile} (h : Table.findIn n (bindEach units c names).2 = some v) :
    ∃ u c', units.find? n = some u ∧ v = (u.bind units c').2 := by
  induction names generalizing c with
  | nil => cases h
  | cons name rest ih =>
    cases hu : units.find? name with
    | none => exact ih (bindEach_of_none hu c rest ▸ h)
    | some u =>
      rw [bindEach_of_some hu, Table.findIn] at h
      split at h
      · next heq => exact ⟨u, c, heq ▸ hu, (Option.some.inj h).symm⟩
      · exact ih h

namespace Gathering

variable {g : Gathering}

/-- The units that were gathered, bound in the order of their names. -/
def boundEach (g : Gathering) : Checker × List (String × SourceFile) :=
  bindEach g.units ⟨.empty, g.draft.findings⟩ (Text.sorted g.units.keys)

theorem nodup_boundEach (hnodup : g.units.keys.Nodup) : (g.boundEach.2.map (·.1)).Nodup :=
  (sublist_bindEach ..).nodup ((Text.sorted_perm _).nodup_iff.2 hnodup)

/-- The bound units of which a program shows the trees. -/
def bound (g : Gathering) : Table String SourceFile :=
  (bindUnits g.units ⟨.empty, g.draft.findings⟩ (Text.sorted g.units.keys)).2

theorem find?_bound (hnodup : g.units.keys.Nodup) (n : String) :
    g.bound.find? n = Table.findIn n g.boundEach.2 := by
  obtain ⟨-, hfind⟩ := bindUnits_eq ((Text.sorted_perm _).nodup_iff.2 hnodup)
    (fun n => (rfl : (g.units.find? n).map _ = _)) (fun _ _ => rfl) ⟨.empty, g.draft.findings⟩
  rw [bound, hfind, boundEach]
  cases hbound : Table.findIn n (bindEach g.units ⟨.empty, g.draft.findings⟩
      (Text.sorted g.units.keys)).2 with
  | some u => rfl
  | none =>
    rw [Option.none_or, ← Table.contains_eq_false_iff, Bool.eq_false_iff]
    intro hcontains
    have hmem := (mem_bindEach (c := ⟨.empty, g.draft.findings⟩)).2
      ⟨Text.mem_sorted.2 ((Table.contains_iff_mem_keys _ _).1 hcontains), hcontains⟩
    rw [← Table.findIn_isSome_iff, hbound] at hmem
    cases hmem

/-- The unit that a program has for a source: it is bound among all units. -/
theorem find?_bindAll (hnodup : g.units.keys.Nodup) (n : String) :
    (bindAll g).units.find? n = (Table.findIn n g.boundEach.2).map SourceFile.toUnit := by
  rw [← find?_bound hnodup]
  exact Table.find?_mapValues ..

/-- A unit of a program is a unit that was gathered, with its uses bound. -/
theorem exists_bind_of_bindAll (hnodup : g.units.keys.Nodup) {n : String} {w : CompiledUnit}
    (hw : (bindAll g).units.find? n = some w) :
    ∃ u c, g.units.find? n = some u ∧ w = (u.bind g.units c).2.toUnit := by
  rw [find?_bindAll hnodup] at hw
  obtain ⟨v, hv, rfl⟩ := Option.map_eq_some_iff.1 hw
  obtain ⟨u, c, hu, rfl⟩ := findIn_bindEach hv
  exact ⟨u, c, hu, rfl⟩

theorem findings_bindAll (hnodup : g.units.keys.Nodup) :
    (bindAll g).findings = g.boundEach.1.findings :=
  congrArg Checker.findings (bindUnits_eq ((Text.sorted_perm _).nodup_iff.2 hnodup)
    (fun _ => rfl) (fun _ _ => rfl) ⟨.empty, g.draft.findings⟩).1

theorem contains_bindAll (g : Gathering) (n : String) :
    (bindAll g).units.contains n = g.units.contains n := by
  have hkept := outline_bindUnits g.units ⟨.empty, g.draft.findings⟩ (Text.sorted g.units.keys) n
  have hsome := congrArg Option.isSome hkept
  simpa [Table.contains, bindAll] using hsome

/-- A program has no source twice. -/
theorem nodup_bindAll (hnodup : g.units.keys.Nodup) : (bindAll g).units.keys.Nodup := by
  have hbound (names : List String) (units : Table String SourceFile) (c : Checker)
      (hnodup : units.keys.Nodup) : (bindUnits units c names).2.keys.Nodup := by
    induction names generalizing units c with
    | nil => exact hnodup
    | cons name rest ih =>
      unfold bindUnits
      split
      · exact ih units c hnodup
      · exact ih _ _ (Table.nodup_keys_insert _ _ _ hnodup)
  have hunits := hbound (Text.sorted g.units.keys) g.units ⟨.empty, g.draft.findings⟩ hnodup
  simpa [bindAll, Table.keys, Table.mapValues, Function.comp_def] using hunits

end Gathering

/-! ## The same units in two programs -/

variable {r : Renaming} {units units' : Table String SourceFile}

/-- The units in the sources of a renaming are the same in two programs but for the handles, and look
for no other units; the handles of other units are others. -/
structure SameUnits (r : Renaming) (units units' : Table String SourceFile) : Prop where
  unit : ∀ n, r.Near n → units'.find? n = (units.find? n).map (·.relabel r.handle)
  source : ∀ n u, units.find? n = some u → u.source = n
  source' : ∀ n u, units'.find? n = some u → u.source = n
  covers : ∀ n, r.Near n → ∀ u, units.find? n = some u → ∀ h ∈ u.handles, r.Covers h
  apart : ∀ n, ¬ r.Near n → ∀ u, units.find? n = some u → ∀ h ∈ u.handles, ¬ r.Covers h
  apart' : ∀ n, ¬ r.Near n → ∀ u, units'.find? n = some u → ∀ h, r.Covers h →
    r.handle h ∉ u.handles
  keys : ∀ n, r.Near n → ∀ u, units.find? n = some u → ∀ i ∈ u.items,
    r.Near i.key ∨ units.find? i.key = none ∧ units'.find? i.key = none

/-- What is declared in the sources of a renaming has the same types, and the same is found in these
sources. -/
structure Matched (r : Renaming) (c c' : Checker) : Prop where
  types : ∀ h, r.Covers h → c'.types.find? (r.handle h) = c.types.find? h
  found : ∀ n, r.Near n → c'.findings.filter (·.liesIn n) = c.findings.filter (·.liesIn n)
  concerns : ∀ n, r.Near n → ∀ f ∈ c.findings, f.liesIn n = true → r.Concerns n f

/-- A finding lies in one source only. -/
theorem eq_of_liesIn {f : Finding} {n m : String}
    (h : f.liesIn n = true) (h' : f.liesIn m = true) : n = m := by
  unfold Finding.liesIn at h h'
  cases hl : f.location with
  | none => simp [hl] at h
  | some l =>
    simp only [hl, Option.any_some, decide_eq_true_eq] at h h'
    exact h.symm.trans h'

namespace Matched

variable {c c' : Checker} {names names' : List String}

/-- What lies in another source does not matter. -/
theorem filter_append_of_ne {l found : List Finding} {n m : String} (hne : n ≠ m)
    (hfound : ∀ f ∈ found, f.liesIn n = true) :
    (l ++ found).filter (·.liesIn m) = l.filter (·.liesIn m) := by
  rw [List.filter_append, List.filter_eq_nil_iff.2 fun f hf hm => hne (eq_of_liesIn
    (hfound f hf) hm), List.append_nil]

theorem of_grows (h : Matched r c c') {n : String} (hn : ¬ r.Near n) {own : Int → Prop}
    (hown : ∀ handle, own handle → ¬ r.Covers handle) {c₁ : Checker}
    (hgrows : Checker.Grows n own c c₁) : Matched r c₁ c' := by
  obtain ⟨found, hfound, hlies⟩ := hgrows.findings
  refine ⟨fun handle hcovers => ?_, fun m hm => ?_, fun m hm f hf hmem => ?_⟩
  · rw [h.types handle hcovers, hgrows.types handle fun h => hown handle h hcovers]
  · have hne : n ≠ m := fun heq => hn (heq ▸ hm)
    rw [h.found m hm, hfound, filter_append_of_ne hne hlies]
  · rw [hfound] at hf
    rcases List.mem_append.1 hf with hf | hf
    · exact h.concerns m hm f hf hmem
    · exact absurd (eq_of_liesIn (hlies f hf) hmem ▸ hm) hn

theorem of_grows' (h : Matched r c c') {n : String} (hn : ¬ r.Near n) {own : Int → Prop}
    (hown : ∀ handle, r.Covers handle → ¬ own (r.handle handle)) {c₁ : Checker}
    (hgrows : Checker.Grows n own c' c₁) : Matched r c c₁ := by
  obtain ⟨found, hfound, hlies⟩ := hgrows.findings
  refine ⟨fun handle hcovers => ?_, fun m hm => ?_, h.concerns⟩
  · rw [← h.types handle hcovers, hgrows.types _ (hown handle hcovers)]
  · have hne : n ≠ m := fun heq => hn (heq ▸ hm)
    rw [← h.found m hm, hfound, filter_append_of_ne hne hlies]

theorem of_alike (h : Matched r c c') {n : String} {c₁ c₁' : Checker}
    (halike : Checker.Alike r n c.findings c'.findings c₁ c₁') : Matched r c₁ c₁' := by
  obtain ⟨found, hfound, hfound', hconcerns⟩ := halike.findings
  refine ⟨halike.types, fun m hm => ?_, fun m hm f hf hmem => ?_⟩
  · rw [hfound, hfound', List.filter_append, List.filter_append, h.found m hm]
  · rw [hfound] at hf
    rcases List.mem_append.1 hf with hf | hf
    · exact h.concerns m hm f hf hmem
    · exact eq_of_liesIn (hconcerns f hf).lies hmem ▸ hconcerns f hf

/-- A unit in the sources of a renaming is bound in the same way. -/
theorem bind (h : Matched r c c') (hsame : SameUnits r units units') {n : String} (hn : r.Near n)
    {u : SourceFile} (hu : units.find? n = some u) :
    Matched r (u.bind units c).1 ((u.relabel r.handle).bind units' c').1 ∧
      ((u.relabel r.handle).bind units' c').2 = (u.bind units c).2.rename r.handle := by
  obtain rfl := hsame.source n u hu
  have hscope : ScopeAlike r (importedScope units u) (importedScope units' (u.relabel r.handle)) := by
    refine importedScope_alike (fun i hi => ?_) fun i hi other hother d hd => ?_
    · rcases hsame.keys _ hn u hu i hi with hnear | ⟨hnone, hnone'⟩
      · rw [hsame.unit _ hnear, Option.map_map, Function.comp_def]
        simp only [SourceFile.declarations_relabel]
      · rw [hnone, hnone', Option.map_none, Option.map_none]
    · rcases hsame.keys _ hn u hu i hi with hnear | ⟨hnone, -⟩
      · have hsource := hsame.source _ _ hother
        exact (other.knows_declarations (hsource ▸ hnear) (hsame.covers _ hnear _ hother) d hd).1
      · rw [hnone] at hother
        cases hother
  have hstart : Checker.Alike r u.source c.findings c'.findings c c' := ⟨h.types, [], by simp⟩
  obtain ⟨halike, hbound⟩ := alike_bind hstart hscope hn (hsame.covers _ hn u hu)
  exact ⟨h.of_alike halike, hbound⟩

/-- Units in other sources may be bound in one program. -/
theorem bindEach_of_far' (h : Matched r c c') (hsame : SameUnits r units units')
    (hfar : ∀ n ∈ names, ¬ r.Near n) : Matched r c (bindEach units' c' names).1 := by
  induction names generalizing c' with
  | nil => exact h
  | cons n rest ih =>
    have hrest := fun m hm => hfar m (List.mem_cons_of_mem _ hm)
    cases hu : units'.find? n with
    | none =>
      rw [bindEach_of_none hu]
      exact ih h hrest
    | some u =>
      rw [bindEach_of_some hu]
      have hn := hfar n List.mem_cons_self
      obtain rfl := hsame.source' n u hu
      exact ih (h.of_grows' hn (hsame.apart' _ hn u hu) (grows_bind units' u c')) hrest

end Matched

/-- The units in the sources of a renaming are bound in the same way, whatever other units are bound
between them. -/
theorem matched_bindEach (hsame : SameUnits r units units') {c c' : Checker} (h : Matched r c c')
    {p : String → Bool} (hp : ∀ n, p n = true ↔ r.Near n) {names names' : List String}
    (hnames : names.filter p = names'.filter p) :
    Matched r (bindEach units c names).1 (bindEach units' c' names').1 ∧
      ∀ n, r.Near n → Table.findIn n (bindEach units' c' names').2 =
        (Table.findIn n (bindEach units c names).2).map (·.rename r.handle) := by
  induction names generalizing c c' names' with
  | nil =>
    have hfar : ∀ n ∈ names', ¬ r.Near n := fun n hn hnear =>
      List.filter_eq_nil_iff.1 hnames.symm n hn ((hp n).2 hnear)
    refine ⟨h.bindEach_of_far' hsame hfar, fun n hn => ?_⟩
    show _ = none
    rw [← Option.not_isSome_iff_eq_none, Table.findIn_isSome_iff]
    exact fun hmem => hfar n (mem_bindEach.1 hmem).1 hn
  | cons n rest ih =>
    cases hpn : p n with
    | false =>
      have hn : ¬ r.Near n := fun hnear => by simp [(hp n).2 hnear] at hpn
      rw [List.filter_cons_of_neg (by simp [hpn])] at hnames
      cases hu : units.find? n with
      | none =>
        rw [bindEach_of_none hu]
        exact ih h hnames
      | some u =>
        rw [bindEach_of_some hu]
        obtain rfl := hsame.source n u hu
        obtain ⟨hmatched, hbound⟩ := ih (h.of_grows hn (hsame.apart _ hn u hu)
          (grows_bind units u c)) hnames
        refine ⟨hmatched, fun m hm => ?_⟩
        have hne : u.source ≠ m := fun heq => hn (heq ▸ hm)
        rw [hbound m hm]
        simp only [Table.findIn, if_neg hne]
    | true =>
      have hn := (hp n).1 hpn
      rw [List.filter_cons_of_pos hpn] at hnames
      obtain ⟨far, rest', rfl, hfar, -, hrest⟩ := List.filter_eq_cons_iff.1 hnames.symm
      have hfar' : ∀ m ∈ far, ¬ r.Near m := fun m hm hnear => hfar m hm ((hp m).2 hnear)
      have hpassed := h.bindEach_of_far' hsame hfar'
      have hskip (m : String) (hm : r.Near m) : Table.findIn m (bindEach units' c' far).2 = none := by
        rw [← Option.not_isSome_iff_eq_none, Table.findIn_isSome_iff]
        exact fun hmem => hfar' m (mem_bindEach.1 hmem).1 hm
      rw [bindEach_append]
      simp only [Table.findIn_append]
      have hunit := hsame.unit n hn
      cases hu : units.find? n with
      | none =>
        rw [hu] at hunit
        rw [bindEach_of_none hu, bindEach_of_none hunit]
        obtain ⟨hmatched, hbound⟩ := ih hpassed hrest.symm
        exact ⟨hmatched, fun m hm => by rw [hskip m hm, Option.none_or, hbound m hm]⟩
      | some u =>
        rw [hu] at hunit
        rw [bindEach_of_some hu, bindEach_of_some hunit]
        obtain ⟨hstep, hrenamed⟩ := hpassed.bind hsame hn hu
        obtain ⟨hmatched, hbound⟩ := ih hstep hrest.symm
        refine ⟨hmatched, fun m hm => ?_⟩
        rw [hskip m hm, Option.none_or]
        simp only [Table.findIn]
        split
        · rw [hrenamed, Option.map_some]
        · exact hbound m hm

end LanguageServer.Toy
