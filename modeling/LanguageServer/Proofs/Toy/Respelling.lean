import LanguageServer.Proofs.Toy.Displacement
import LanguageServer.Proofs.Toy.Gathering

/-!
# Gathering texts that are spelt in another way

Some of the texts that are handed over may hold the same tokens at other offsets.  Then the
same names are taken up in the same order, the same questions are asked, and the program that
is bound in the end is the same at other offsets.

## Main definitions

* `Origin.Respelled` — an origin with texts that are spelt in another way.
* `Gathering.Respelled` — what is known while such texts are gathered.

## Main statements

* `Gathering.Respelled.takes` — one name is taken up alike.
* `Gathering.Gathers.respelled` — all names are.
* `Gathering.Respelled.bindAll` — the program is the same at other offsets.
-/

namespace LanguageServer.Toy

variable {φ : Shift}

/-! ## Imports at other offsets -/

theorem SourceFile.resolved_shift (rules : List Remapping) (u : SourceFile) :
    (u.shift φ).resolved rules = (u.resolved rules).shift φ := by
  simp only [resolved, shift, List.map_map]
  congr 1
  exact List.map_congr_left fun i _ => by cases i <;> rfl

theorem SourceFile.imports_shift (u : SourceFile) : (u.shift φ).imports = u.imports := by
  simp only [imports, shift, List.filterMap_map]
  exact List.filterMap_congr fun i _ => by cases i <;> rfl

/-- An origin with the same sources, of which those that are handed over may be spelt in another
way. -/
structure Origin.Respelled (φ : Shift) (o o' : Origin) : Prop where
  rules : o'.rules = o.rules
  keys : o'.sources.keys = o.sources.keys
  text : ∀ n t t', o.sources.find? n = some t → o'.sources.find? n = some t' →
    Respells (φ.map n) t t'
  answer : ∀ n, o.sources.contains n = false → o'.answer sourceKind n = o.answer sourceKind n
  still : ∀ n, o.sources.contains n = false → φ.map n = id

namespace Gathering

/-- What is known while texts are gathered that are spelt in another way.  Names that wait have
texts, and a source that is not known yet has one spelling only. -/
structure Respelled (φ : Shift) (o o' : Origin) (g g' : Gathering) : Prop where
  contains : ∀ n, g'.texts.contains n = g.texts.contains n
  text : ∀ n t t', g.texts.find? n = some t → g'.texts.find? n = some t' → Respells (φ.map n) t t'
  units : g'.units = shiftUnits φ g.units
  pending : g'.pending = g.pending
  draft : g'.draft = g.draft.shift φ
  waiting : ∀ n ∈ g.pending, g.texts.contains n = true
  answer : ∀ n, g.texts.contains n = false → o'.answer sourceKind n = o.answer sourceKind n
  still : ∀ n, g.texts.contains n = false → φ.map n = id

namespace Respelled

variable {o o' : Origin} {g g' g₁ : Gathering} {exchanges : List Exchange}

theorem start (h : o.Respelled φ o') : Respelled φ o o' (.start o.sources) (.start o'.sources) where
  contains n := by
    rw [Bool.eq_iff_iff]
    simp only [Gathering.start, Table.contains_iff_mem_keys, h.keys]
  text := h.text
  units := rfl
  pending := by simp only [Gathering.start, h.keys]
  draft := rfl
  waiting n hn := (Table.contains_iff_mem_keys _ n).2 (by
    simpa [Gathering.start, Text.mem_sorted] using hn)
  answer := h.answer
  still := h.still

theorem contains_units (h : Respelled φ o o' g g') (n : String) :
    g'.units.contains n = g.units.contains n := by
  rw [h.units]
  exact Table.contains_mapValues _ g.units n

/-- Names that have texts can wait. -/
theorem wait (h : Respelled φ o o' g g') {names : List String}
    (hnames : ∀ n ∈ names, g.texts.contains n = true) :
    Respelled φ o o' { g with pending := names } { g' with pending := names } :=
  { h with pending := rfl, waiting := hnames }

/-- One more name waits behind the others. -/
theorem await (h : Respelled φ o o' g g') {name : String} (hname : g.texts.contains name = true) :
    Respelled φ o o' { g with pending := g.pending ++ [name] }
      { g' with pending := g'.pending ++ [name] } := by
  rw [h.pending]
  refine h.wait fun n hn => ?_
  rcases List.mem_append.1 hn with hn | hn
  · exact h.waiting n hn
  · exact List.mem_singleton.1 hn ▸ hname

/-- A text that is read has one spelling. -/
theorem read (h : Respelled φ o o' g g') {name : String} (hnew : g.texts.contains name = false)
    (text : String) :
    Respelled φ o o' { g with texts := g.texts.insert name text }
      { g' with texts := g'.texts.insert name text } := by
  have hold (t : Table String String) (n : String)
      (hn : (t.insert name text).contains n = false) : t.contains n = false := by
    simp only [Table.contains, Table.find?_insert] at hn ⊢
    split at hn
    · cases hn
    · exact hn
  exact
    { h with
      contains := fun n => by
        have hsame := h.contains n
        simp only [Table.contains, Table.find?_insert] at hsame ⊢
        split
        · rfl
        · exact hsame
      text := fun n t t' ht ht' => by
        rw [Table.find?_insert] at ht ht'
        by_cases hn : name = n
        · rw [if_pos hn, Option.some.injEq] at ht ht'
          rw [← hn, h.still name hnew, ← ht, ← ht']
          exact .refl text
        · rw [if_neg hn] at ht ht'
          exact h.text n t t' ht ht'
      waiting := fun n hn => by
        have hknown := h.waiting n hn
        simp only [Table.contains, Table.find?_insert] at hknown ⊢
        split
        · rfl
        · exact hknown
      answer := fun n hn => h.answer n (hold _ n hn)
      still := fun n hn => h.still n (hold _ n hn) }

/-- A source is parsed alike. -/
theorem parse (h : Respelled φ o o' g g') (rules : List Remapping) {name : String}
    (hname : g.texts.contains name = true) :
    (g'.parse rules name).1 = (g.parse rules name).1.shift φ ∧
      Respelled φ o o' (g.parse rules name).2 (g'.parse rules name).2 := by
  obtain ⟨t, ht⟩ := Option.isSome_iff_exists.1 hname
  obtain ⟨t', ht'⟩ := Option.isSome_iff_exists.1 ((h.contains name).trans hname)
  have hparsed := parseFile_shift (h.text name t t' ht ht') g.draft
  have hunits (u : SourceFile) : g'.units.insert name (u.shift φ) =
      shiftUnits φ (g.units.insert name u) := by
    rw [h.units]
    exact (Table.mapValues_insert ..).symm
  simp only [Gathering.parse, ht, ht', Option.getD_some, h.draft, hparsed,
    SourceFile.resolved_shift, true_and]
  exact { h with units := hunits _, draft := rfl }

/-- The same imports are asked for. -/
theorem askAll (h : Respelled φ o o' g g') {names : List String}
    (hask : (g.askAll names).converse o.answer = (exchanges, .ok g₁)) :
    ∃ g₁', (g'.askAll names).converse o'.answer = (exchanges, .ok g₁') ∧
      Respelled φ o o' g₁ g₁' := by
  -- On the names, for all that is known when the first of them is asked for.
  induction names generalizing g g' exchanges with
  | nil =>
    obtain ⟨rfl, hg⟩ := Prod.mk.inj hask
    obtain rfl := Except.ok.inj hg
    exact ⟨g', rfl, h⟩
  | cons name rest ih =>
    unfold Gathering.askAll at hask ⊢
    rw [h.contains name]
    cases hknown : g.texts.contains name with
    | true =>
      simp only [hknown, if_true] at hask ⊢
      exact ih (h.await hknown) hask
    | false =>
      simp only [hknown, Bool.false_eq_true, if_false, Compiling.converse, h.answer name hknown]
        at hask ⊢
      cases hanswer : o.answer sourceKind name with
      | error f => simp [hanswer] at hask
      | ok outcome =>
        simp only [hanswer] at hask ⊢
        cases outcome with
        | error failure =>
          obtain ⟨rfl, hg⟩ := Prod.mk.inj hask
          obtain ⟨g₁', hrest, h₁⟩ := ih h (Prod.ext rfl hg)
          exact ⟨g₁', by rw [hrest], h₁⟩
        | ok text =>
          -- Both read the same text, as nothing is moved in what was not handed over.
          obtain ⟨rfl, hg⟩ := Prod.mk.inj hask
          have hknows : (g.texts.insert name text).contains name = true := by simp [Table.contains]
          have hread := (h.read hknown text).await hknows
          obtain ⟨g₁', hrest, h₁⟩ := ih hread (Prod.ext rfl hg)
          exact ⟨g₁', by rw [hrest], h₁⟩

/-- One name is taken up alike. -/
theorem takes (h : Respelled φ o o' g g') (hrules : o'.rules = o.rules)
    (htake : Takes o g exchanges g₁) : ∃ g₁', Takes o' g' exchanges g₁' ∧ Respelled φ o o' g₁ g₁' := by
  cases htake with
  | @skip name rest hpending hknown =>
    refine ⟨_, .skip (h.pending.trans hpending) ((h.contains_units name).trans hknown),
      h.wait fun n hn => h.waiting n (by simp [hpending, hn])⟩
  | @parse _ name rest _ hpending hnew hask =>
    have hwaiting : ∀ n ∈ name :: rest, g.texts.contains n = true := hpending ▸ h.waiting
    have hwait := h.wait fun n hn => hwaiting n (List.mem_cons_of_mem _ hn)
    obtain ⟨hunit, hparsed⟩ := hwait.parse o.rules (hwaiting name List.mem_cons_self)
    obtain ⟨g₁', hasked, h₁⟩ := hparsed.askAll hask
    refine ⟨g₁', .parse (h.pending.trans hpending) ((h.contains_units name).trans hnew) ?_, h₁⟩
    rw [hrules, hunit, SourceFile.imports_shift]
    exact hasked

/-- What was gathered is bound to the same program at other offsets. -/
theorem bindAll (h : Respelled φ o o' g g') : Toy.bindAll g' = (Toy.bindAll g).shift φ := by
  have hkeys : g'.units.keys = g.units.keys := by
    simp [h.units, shiftUnits, Table.keys, Table.mapValues]
  have hbound : bindUnits g'.units ⟨.empty, g'.draft.findings⟩ (Text.sorted g'.units.keys) =
      ((bindUnits g.units ⟨.empty, g.draft.findings⟩ (Text.sorted g.units.keys)).1.shift φ,
        shiftUnits φ
          (bindUnits g.units ⟨.empty, g.draft.findings⟩ (Text.sorted g.units.keys)).2) := by
    rw [hkeys, h.units, h.draft]
    exact bindUnits_shift g.units ⟨.empty, g.draft.findings⟩ _
  simp only [Toy.bindAll, hbound]
  simp only [h.draft, Draft.shift, Checker.shift, Program.shift, shiftUnits, Table.mapValues,
    List.map_map, Function.comp_def, SourceFile.toUnit_shift]

end Respelled

/-- All names are taken up alike. -/
theorem Gathers.respelled {o o' : Origin} {n : Nat} {g g' g₁ : Gathering} {exchanges : List Exchange}
    (h : Gathers o n g exchanges g₁) (hrules : o'.rules = o.rules) (hstart : Respelled φ o o' g g') :
    ∃ g₁', Gathers o' n g' exchanges g₁' ∧ Respelled φ o o' g₁ g₁' := by
  induction h generalizing g' with
  | done hpending => exact ⟨g', .done (hstart.pending.trans hpending), hstart⟩
  | take htake _ ih =>
    obtain ⟨g₂, htake', h₂⟩ := hstart.takes hrules htake
    obtain ⟨g₁', hgathers, h₁⟩ := ih h₂
    exact ⟨g₁', .take htake' hgathers, h₁⟩

end Gathering

end LanguageServer.Toy
