import LanguageServer.Proofs.Compiler.Conversation
import LanguageServer.Proofs.Compiler.Renaming
import LanguageServer.Proofs.Table
import LanguageServer.Proofs.Toy.Reading
import LanguageServer.Toy.Engine

/-!
# What is gathered

Gathering takes up one name after the other.  What it knows at any time is part of what
there is to know: the texts are those that the compiler was handed or that it was
answered, the units are read from these texts, and every import of a unit is a unit, or
waits, or was asked for in vain.

## Main definitions

* `Origin` — where sources come from; `Origin.text?`, `Origin.unit`, `Origin.imports`.
* `Gathering.Takes`, `Gathering.Gathers` — taking up one name, and all names.
* `Gathering.Follows` — the texts and the names agree with their origin.
* `Gathering.Places` — the units and the draft do, and the handles of units are apart.

## Main statements

* `Gathering.converse_run` — a run takes up names one after the other.
* `Gathering.converse_compile_eq_ok_iff` — what is compiled is bound from what is gathered.
* `Gathering.Gathers.isComplete` — what was gathered in the end.
-/

namespace LanguageServer

namespace Toy

/-! ## Where sources come from -/

/-- What a compilation is handed, and how its questions are answered. -/
structure Origin where
  sources : Table String String
  rules : List Remapping
  answer : String → String → Except Fault ReadOutcome

namespace Origin

/-- The text of a source, if there is one. -/
def text? (o : Origin) (name : String) : Option String :=
  match o.sources.find? name with
  | some text => some text
  | none =>
    match o.answer sourceKind name with
    | .ok (.ok text) => some text
    | _ => none

/-- Whether there is a source of a name. -/
def has (o : Origin) (name : String) : Bool := (o.text? name).isSome

/-- What is read of a source alone. -/
def alone (o : Origin) (name : String) : SourceFile × Draft :=
  parseAlone name ((o.text? name).getD "")

/-- The unit of a source. -/
def unit (o : Origin) (name : String) : SourceFile := (o.alone name).1.resolved o.rules

/-- The number of declarations of a source. -/
def size (o : Origin) (name : String) : Int := (o.alone name).2.count

/-- The sources that a source imports; one that does not exist imports none. -/
def imports (o : Origin) (name : String) : List String :=
  if o.has name then (o.unit name).imports else []

theorem size_nonneg (o : Origin) (name : String) : 0 ≤ o.size name := Draft.count_nonneg _

theorem has_of_mem_imports {o : Origin} {name other : String} (h : other ∈ o.imports name) :
    o.has name = true := by
  unfold imports at h
  split at h
  · assumption
  · cases h

/-- A source that the compiler was not handed has the text that is answered. -/
theorem text?_of_answer {o : Origin} {name : String} (hnew : o.sources.contains name = false)
    {outcome : ReadOutcome} (h : o.answer sourceKind name = .ok outcome) :
    o.text? name = outcome.toOption := by
  have hnone : o.sources.find? name = none := by
    simpa [Table.contains] using hnew
  unfold text?
  rw [hnone, h]
  cases outcome <;> rfl

end Origin

/-! ## Units with other handles -/

theorem Item.resolved_relabel (rules : List Remapping) (importer : String) (ρ : Int → Int)
    (i : Item) : (i.relabel ρ).resolved rules importer = (i.resolved rules importer).relabel ρ := by
  cases i <;> rfl

theorem SourceFile.resolved_relabel (rules : List Remapping) (ρ : Int → Int) (u : SourceFile) :
    (u.relabel ρ).resolved rules = (u.resolved rules).relabel ρ := by
  simp [SourceFile.resolved, SourceFile.relabel, Item.resolved_relabel]

theorem Item.source?_relabel (ρ : Int → Int) (i : Item) : (i.relabel ρ).source? = i.source? := by
  cases i <;> rfl

@[simp] theorem SourceFile.imports_relabel (ρ : Int → Int) (u : SourceFile) :
    (u.relabel ρ).imports = u.imports := by
  simp [SourceFile.imports, SourceFile.relabel, List.filterMap_map, Item.source?_relabel]

/-- A source that exists has the imports of its unit, wherever the handles are moved. -/
theorem Origin.imports_relabel_unit {o : Origin} {name : String} (h : o.has name = true)
    (ρ : Int → Int) : ((o.unit name).relabel ρ).imports = o.imports name := by
  rw [SourceFile.imports_relabel, Origin.imports, if_pos h]

namespace Gathering

variable {o : Origin}

/-! ## Asking for imports -/

/-- What asking for imports does: those that exist wait. -/
structure Asks (o : Origin) (g : Gathering) (names : List String) (exchanges : List Exchange)
    (g' : Gathering) : Prop where
  units : g'.units = g.units
  draft : g'.draft = g.draft
  pending : g'.pending = g.pending ++ names.filter o.has
  text : ∀ n t, g'.texts.find? n = some t → o.text? n = some t
  kept : ∀ n, g.texts.contains n = true → g'.texts.contains n = true
  served : ∀ n ∈ names, o.has n = true → g'.texts.contains n = true
  read : ∀ n, g'.texts.contains n = true →
    g.texts.contains n = true ∨ ∃ x ∈ exchanges, x.path = n
  refused : ∀ n ∈ names, o.has n = false → ∃ x ∈ exchanges, x.path = n
  asked : ∀ x ∈ exchanges, x.kind = sourceKind ∧ o.sources.contains x.path = false ∧
    o.answer sourceKind x.path = .ok x.outcome

namespace Asks

variable {g g₁ g' : Gathering} {names names' : List String} {exchanges exchanges' : List Exchange}

theorem nil (htext : ∀ n t, g.texts.find? n = some t → o.text? n = some t) : Asks o g [] [] g where
  units := rfl
  draft := rfl
  pending := by simp
  text := htext
  kept _ h := h
  served := by simp
  read _ h := .inl h
  refused := by simp
  asked := by simp

theorem append (h : Asks o g names exchanges g₁) (h' : Asks o g₁ names' exchanges' g') :
    Asks o g (names ++ names') (exchanges ++ exchanges') g' where
  units := h'.units.trans h.units
  draft := h'.draft.trans h.draft
  pending := by simp [h'.pending, h.pending]
  text := h'.text
  kept n hn := h'.kept n (h.kept n hn)
  served n hn hhas := by
    rcases List.mem_append.1 hn with hn | hn
    · exact h'.kept n (h.served n hn hhas)
    · exact h'.served n hn hhas
  read n hn := by
    rcases h'.read n hn with hn | ⟨x, hx, hpath⟩
    · exact (h.read n hn).imp_right fun ⟨x, hx, hpath⟩ => ⟨x, List.mem_append_left _ hx, hpath⟩
    · exact .inr ⟨x, List.mem_append_right _ hx, hpath⟩
  refused n hn hhas := by
    rcases List.mem_append.1 hn with hn | hn
    · obtain ⟨x, hx, hpath⟩ := h.refused n hn hhas
      exact ⟨x, List.mem_append_left _ hx, hpath⟩
    · obtain ⟨x, hx, hpath⟩ := h'.refused n hn hhas
      exact ⟨x, List.mem_append_right _ hx, hpath⟩
  asked x hx := by
    rcases List.mem_append.1 hx with hx | hx
    · exact h.asked x hx
    · exact h'.asked x hx

/-- A source whose text is known waits. -/
theorem known (htext : ∀ n t, g.texts.find? n = some t → o.text? n = some t) {name : String}
    (hknown : g.texts.contains name = true) :
    Asks o g [name] [] { g with pending := g.pending ++ [name] } := by
  have hhas : o.has name = true := by
    obtain ⟨t, ht⟩ := Option.isSome_iff_exists.1 hknown
    simp [Origin.has, htext name t ht]
  exact
    { units := rfl, draft := rfl, pending := by simp [hhas], text := htext, kept := fun _ h => h
      served := by simpa using fun _ => hknown
      read := fun _ h => .inl h
      refused := by simp [hhas]
      asked := by simp }

/-- A source that is asked for in vain is left out. -/
theorem vain (htext : ∀ n t, g.texts.find? n = some t → o.text? n = some t) {name : String}
    (hnew : o.sources.contains name = false) {failure : ReadFailure}
    (hanswer : o.answer sourceKind name = .ok (.error failure)) :
    Asks o g [name] [⟨sourceKind, name, .error failure⟩] g := by
  have hhas : o.has name = false := by
    simp [Origin.has, Origin.text?_of_answer hnew hanswer, Except.toOption]
  exact
    { units := rfl, draft := rfl, pending := by simp [hhas], text := htext, kept := fun _ h => h
      served := by simp [hhas]
      read := fun _ h => .inl h
      refused := by simp
      asked := by simpa using ⟨hnew, hanswer⟩ }

/-- A source that is asked for and read waits. -/
theorem answered (htext : ∀ n t, g.texts.find? n = some t → o.text? n = some t) {name text : String}
    (hnew : o.sources.contains name = false)
    (hanswer : o.answer sourceKind name = .ok (.ok text)) :
    Asks o g [name] [⟨sourceKind, name, .ok text⟩]
      { g with texts := g.texts.insert name text, pending := g.pending ++ [name] } := by
  have htext' : o.text? name = some text := Origin.text?_of_answer hnew hanswer
  have hhas : o.has name = true := by simp [Origin.has, htext']
  exact
    { units := rfl, draft := rfl, pending := by simp [hhas]
      text := by
        intro n t ht
        rw [Table.find?_insert] at ht
        split at ht
        · next heq => rw [← heq, htext', ht]
        · exact htext n t ht
      kept := by
        intro n hn
        simp only [Table.contains, Table.find?_insert]
        split
        · rfl
        · exact hn
      served := by simp [Table.contains]
      read := by
        intro n hn
        simp only [Table.contains, Table.find?_insert] at hn
        split at hn
        · next heq => exact .inr ⟨_, List.mem_singleton_self _, heq⟩
        · exact .inl hn
      refused := by simp
      asked := by simpa using ⟨hnew, hanswer⟩ }

end Asks

/-- Asking for imports ends in a fault, or does what it should. -/
theorem asks_of_converse {g g' : Gathering} {names : List String} {exchanges : List Exchange}
    (htext : ∀ n t, g.texts.find? n = some t → o.text? n = some t)
    (hgiven : ∀ n, o.sources.contains n = true → g.texts.contains n = true)
    (h : (g.askAll names).converse o.answer = (exchanges, .ok g')) :
    Asks o g names exchanges g' := by
  induction names generalizing g exchanges with
  | nil =>
    obtain ⟨rfl, hg⟩ := Prod.mk.inj h
    obtain rfl := Except.ok.inj hg
    exact .nil htext
  | cons name rest ih =>
    unfold askAll at h
    by_cases hknown : g.texts.contains name = true
    · simp only [hknown, if_true] at h
      exact (Asks.known htext hknown).append
        (ih (g := { g with pending := g.pending ++ [name] }) htext hgiven h)
    · have hnew : o.sources.contains name = false := by
        simpa using fun hsource => hknown (hgiven name hsource)
      simp only [hknown, Bool.false_eq_true, if_false, Compiling.converse] at h
      cases hanswer : o.answer sourceKind name with
      | error f => simp [hanswer] at h
      | ok outcome =>
        cases outcome with
        | error failure =>
          simp only [hanswer] at h
          obtain ⟨hexchanges, hg⟩ := Prod.mk.inj h
          subst hexchanges
          exact (Asks.vain htext hnew hanswer).append (ih htext hgiven (Prod.ext rfl hg))
        | ok text =>
          simp only [hanswer] at h
          obtain ⟨hexchanges, hg⟩ := Prod.mk.inj h
          subst hexchanges
          have hserved := Asks.answered htext hnew hanswer
          exact hserved.append (ih hserved.text (fun n hn => hserved.kept n (hgiven n hn))
            (Prod.ext rfl hg))

/-- Asking for imports ends in no fault if no answer is one. -/
theorem exists_askAll {g : Gathering} {names : List String}
    (hgiven : ∀ n, o.sources.contains n = true → g.texts.contains n = true)
    (hanswer : ∀ n ∈ names, o.sources.contains n = false →
      ∃ outcome, o.answer sourceKind n = .ok outcome) :
    ∃ exchanges g', (g.askAll names).converse o.answer = (exchanges, .ok g') := by
  induction names generalizing g with
  | nil => exact ⟨[], g, rfl⟩
  | cons name rest ih =>
    have hrest := fun n hn => hanswer n (List.mem_cons_of_mem _ hn)
    unfold askAll
    by_cases hknown : g.texts.contains name = true
    · simp only [hknown, if_true]
      exact ih hgiven hrest
    · have hnew : o.sources.contains name = false := by
        simpa using fun hsource => hknown (hgiven name hsource)
      obtain ⟨outcome, houtcome⟩ := hanswer name List.mem_cons_self hnew
      simp only [hknown, Bool.false_eq_true, if_false, Compiling.converse, houtcome]
      cases outcome with
      | error failure =>
        obtain ⟨exchanges, g', h⟩ := ih hgiven hrest
        exact ⟨_, g', by rw [h]⟩
      | ok text =>
        obtain ⟨exchanges, g', h⟩ := ih
          (g := { g with texts := g.texts.insert name text, pending := g.pending ++ [name] })
          (fun n hn => by
            simp only [Table.contains, Table.find?_insert]
            split
            · rfl
            · exact hgiven n hn) hrest
        exact ⟨_, g', by rw [h]⟩

/-! ## Taking up names -/

/-- Taking up the first name that waits: it is known already, or it is parsed and its imports are
asked for. -/
inductive Takes (o : Origin) : Gathering → List Exchange → Gathering → Prop
  | skip {g : Gathering} {name : String} {rest : List String} (hpending : g.pending = name :: rest)
      (hknown : g.units.contains name = true) : Takes o g [] { g with pending := rest }
  | parse {g g' : Gathering} {name : String} {rest : List String} {exchanges : List Exchange}
      (hpending : g.pending = name :: rest) (hnew : g.units.contains name = false)
      (hask : ((({ g with pending := rest } : Gathering).parse o.rules name).2.askAll
        (({ g with pending := rest } : Gathering).parse o.rules name).1.imports).converse o.answer =
          (exchanges, .ok g')) : Takes o g exchanges g'

/-- Taking up names until none waits; the number counts them. -/
inductive Gathers (o : Origin) : Nat → Gathering → List Exchange → Gathering → Prop
  | done {g : Gathering} (hpending : g.pending = []) : Gathers o 0 g [] g
  | take {n : Nat} {g g₁ g' : Gathering} {exchanges exchanges' : List Exchange}
      (h : Takes o g exchanges g₁) (h' : Gathers o n g₁ exchanges' g') :
      Gathers o (n + 1) g (exchanges ++ exchanges') g'

/-- A run takes up the first name that waits, and goes on. -/
theorem converse_run_succ {g g₁ : Gathering} {exchanges : List Exchange} (h : Takes o g exchanges g₁)
    (n : Nat) : (run o.rules (n + 1) g).converse o.answer =
      (exchanges ++ ((run o.rules n g₁).converse o.answer).1,
        ((run o.rules n g₁).converse o.answer).2) := by
  rw [run]
  cases h with
  | skip hpending hknown =>
    simp only [hpending, hknown, if_true]
    rfl
  | parse hpending hnew hask =>
    simp only [hpending, hnew, Bool.false_eq_true, if_false]
    rw [Compiling.converse_andThen, hask]

/-- A run within a budget takes up at most so many names. -/
theorem converse_run {n : Nat} {g g' : Gathering} {exchanges : List Exchange} :
    (run o.rules n g).converse o.answer = (exchanges, .ok g') ↔
      ∃ m ≤ n, Gathers o m g exchanges g' := by
  constructor
  · intro h
    induction n generalizing g exchanges with
    | zero =>
      unfold run at h
      split at h
      · next hempty =>
        obtain ⟨rfl, hg⟩ := Prod.mk.inj h
        obtain rfl := Except.ok.inj hg
        exact ⟨0, Nat.le_refl 0, .done (by simpa using hempty)⟩
      · simp [Compiling.converse] at h
    | succ n ih =>
      unfold run at h
      cases hpending : g.pending with
      | nil =>
        simp only [hpending] at h
        obtain ⟨rfl, hg⟩ := Prod.mk.inj h
        obtain rfl := Except.ok.inj hg
        exact ⟨0, Nat.zero_le _, .done hpending⟩
      | cons name rest =>
        simp only [hpending] at h
        split at h
        · next hknown =>
          obtain ⟨m, hm, hgathers⟩ := ih h
          exact ⟨m + 1, Nat.succ_le_succ hm, .take (.skip hpending hknown) hgathers⟩
        · next hnew =>
          rw [Compiling.converse_andThen] at h
          split at h
          · next exchanges₁ g₁ hask =>
            obtain ⟨hexchanges, hg⟩ := Prod.mk.inj h
            subst hexchanges
            obtain ⟨m, hm, hgathers⟩ := ih (Prod.ext rfl hg)
            exact ⟨m + 1, Nat.succ_le_succ hm,
              .take (.parse hpending (by simpa using hnew) hask) hgathers⟩
          · simp at h
  · rintro ⟨m, hm, h⟩
    induction h generalizing n with
    | @done g hpending =>
      cases n with
      | zero =>
        unfold run
        simp [hpending, Compiling.converse]
      | succ n =>
        unfold run
        simp [hpending, Compiling.converse]
    | @take m g g₁ g' exchanges exchanges' htake _ ih =>
      obtain ⟨n, rfl⟩ : ∃ k, n = k + 1 := ⟨n - 1, by omega⟩
      rw [converse_run_succ htake, ih (n := n) (by omega)]

/-- What is compiled is bound from what is gathered. -/
theorem converse_compile_eq_ok_iff {budget : Nat} {input : EngineInput}
    {answer : String → String → Except Fault ReadOutcome} {exchanges : List Exchange} {p : Program} :
    (compile budget input).converse answer = (exchanges, .ok p) ↔
      ∃ g, p = bindAll g ∧ ∃ n ≤ budget,
        Gathers ⟨input.sources, input.remappings, answer⟩ n (.start input.sources) exchanges g := by
  have hrun (g : Gathering) : (run input.remappings budget (.start input.sources)).converse answer =
      (exchanges, .ok g) ↔ _ :=
    converse_run (o := ⟨input.sources, input.remappings, answer⟩)
  unfold compile gather
  rw [Compiling.converse_andThen]
  constructor
  · intro h
    split at h
    · next exchanges' g hconverse =>
      obtain ⟨hexchanges, hprogram⟩ := Prod.mk.inj h
      obtain rfl : exchanges' = exchanges := by simpa [Compiling.converse] using hexchanges
      exact ⟨g, (Except.ok.inj hprogram).symm, (hrun g).1 hconverse⟩
    · simp at h
  · rintro ⟨g, rfl, hgathers⟩
    rw [(hrun g).2 hgathers]
    simp [Compiling.converse]

/-- A compilation in which gathering fails does so, too. -/
theorem converse_compile_eq_error {budget : Nat} {input : EngineInput}
    {answer : String → String → Except Fault ReadOutcome} {f : Fault}
    (h : ((run input.remappings budget (.start input.sources)).converse answer).2 = .error f) :
    ((compile budget input).converse answer).2 = .error f := by
  unfold compile gather
  rw [Compiling.converse_andThen]
  generalize (run input.remappings budget (.start input.sources)).converse answer = r at h ⊢
  obtain ⟨exchanges, result⟩ := r
  subst h
  rfl

/-- A larger budget changes nothing. -/
theorem converse_compile_of_le {budget budget' : Nat} (hle : budget ≤ budget') {input : EngineInput}
    {answer : String → String → Except Fault ReadOutcome} {exchanges : List Exchange} {p : Program}
    (h : (compile budget input).converse answer = (exchanges, .ok p)) :
    (compile budget' input).converse answer = (exchanges, .ok p) := by
  obtain ⟨g, hp, n, hn, hgathers⟩ := converse_compile_eq_ok_iff.1 h
  exact converse_compile_eq_ok_iff.2 ⟨g, hp, n, Nat.le_trans hn hle, hgathers⟩

/-- Parsing the text of a source is reading it alone and moving the handles. -/
theorem parse_eq {g : Gathering} {name : String} (hcounted : g.draft.IsCounted)
    (htext : g.texts.find? name = o.text? name) :
    g.parse o.rules name =
      ((o.unit name).relabel (· + g.draft.count),
        { g with
          units := g.units.insert name ((o.unit name).relabel (· + g.draft.count))
          draft := g.draft.behind (o.alone name).2 }) := by
  have hmoves : Parser.Moves g.draft (· + g.draft.count) 0 (o.alone name).2.count :=
    fun _ _ _ => rfl
  unfold parse
  rw [htext, parseFile_eq hcounted name _ hmoves]
  simp only [SourceFile.resolved_relabel]
  rfl

/-! ## Texts and names -/

/-- The texts, and the names of what is parsed and what waits, agree with their origin. -/
structure Follows (o : Origin) (exchanges : List Exchange) (g : Gathering) : Prop where
  text : ∀ n t, g.texts.find? n = some t → o.text? n = some t
  given : ∀ n, o.sources.contains n = true → g.texts.contains n = true
  read : ∀ n, g.texts.contains n = true →
    o.sources.contains n = true ∨ ∃ x ∈ exchanges, x.path = n
  asked : ∀ x ∈ exchanges, x.kind = sourceKind ∧ o.sources.contains x.path = false ∧
    o.answer sourceKind x.path = .ok x.outcome
  pending : ∀ n ∈ g.pending, g.texts.contains n = true
  units : ∀ n, g.units.contains n = true → g.texts.contains n = true
  sources : ∀ n, o.sources.contains n = true → g.units.contains n = true ∨ n ∈ g.pending
  imports : ∀ n, g.units.contains n = true → ∀ m ∈ o.imports n,
    (g.units.contains m = true ∨ m ∈ g.pending) ∨ o.has m = false ∧ ∃ x ∈ exchanges, x.path = m

namespace Follows

variable {g g' : Gathering} {exchanges exchanges' : List Exchange}

/-- A known text is that of its source. -/
theorem find?_eq (h : Follows o exchanges g) {n : String} (hn : g.texts.contains n = true) :
    g.texts.find? n = o.text? n := by
  obtain ⟨t, ht⟩ := Option.isSome_iff_exists.1 hn
  rw [ht, h.text n t ht]

theorem has (h : Follows o exchanges g) {n : String} (hn : g.texts.contains n = true) :
    o.has n = true := by
  unfold Origin.has
  rw [← h.find?_eq hn]
  exact hn

/-- What taking up a name does. -/
theorem takes_cases (h : Follows o exchanges g) (hcounted : g.draft.IsCounted)
    (htake : Takes o g exchanges' g') :
    ∃ name rest, g.pending = name :: rest ∧ g.texts.contains name = true ∧
      (g.units.contains name = true ∧ exchanges' = [] ∧ g' = { g with pending := rest } ∨
        g.units.contains name = false ∧
          Asks o
            { g with
              units := g.units.insert name ((o.unit name).relabel (· + g.draft.count))
              draft := g.draft.behind (o.alone name).2
              pending := rest }
            (o.imports name) exchanges' g') := by
  cases htake with
  | @skip name rest hpending hknown =>
    exact ⟨name, rest, hpending, h.units name hknown, .inl ⟨hknown, rfl, rfl⟩⟩
  | @parse _ name rest _ hpending hnew hask =>
    have hread : g.texts.contains name = true := h.pending name (by simp [hpending])
    refine ⟨name, rest, hpending, hread, .inr ⟨hnew, ?_⟩⟩
    have hparse := parse_eq (g := { g with pending := rest }) hcounted (h.find?_eq hread)
    rw [hparse] at hask
    simp only [Origin.imports_relabel_unit (h.has hread)] at hask
    exact asks_of_converse h.text h.given hask

theorem start (o : Origin) : Follows o [] (.start o.sources) where
  text n t ht := by
    simp only [Gathering.start] at ht
    simp [Origin.text?, ht]
  given n hn := hn
  read n hn := .inl hn
  asked x hx := by cases hx
  pending n hn := (o.sources.contains_iff_mem_keys n).2 (by simpa [Gathering.start] using hn)
  units n hn := by simp [Gathering.start, Table.contains] at hn
  sources n hn := .inr (by
    simpa [Gathering.start] using (o.sources.contains_iff_mem_keys n).1 hn)
  imports n hn := by simp [Gathering.start, Table.contains] at hn

theorem takes (h : Follows o exchanges g) (hcounted : g.draft.IsCounted)
    (htake : Takes o g exchanges' g') : Follows o (exchanges ++ exchanges') g' := by
  obtain ⟨name, rest, hpending, hread, ⟨hknown, rfl, rfl⟩ | ⟨hnew, hasks⟩⟩ :=
    h.takes_cases hcounted htake
  · -- The name that goes is among the units.
    have hgone {n : String} (hn : g.units.contains n = true ∨ n ∈ g.pending) :
        g.units.contains n = true ∨ n ∈ rest := by
      rcases hn with hn | hn
      · exact .inl hn
      · rw [hpending] at hn
        rcases List.mem_cons.1 hn with rfl | hn
        · exact .inl hknown
        · exact .inr hn
    rw [List.append_nil]
    exact
      { h with
        pending := fun n hn => h.pending n (by simp [hpending, show n ∈ rest from hn])
        sources := fun n hn => hgone (h.sources n hn)
        imports := fun n hn m hm => (h.imports n hn m hm).imp_left hgone }
  · have hunits (n : String) : g'.units.contains n = true ↔ name = n ∨ g.units.contains n = true := by
      rw [hasks.units]
      exact Table.contains_insert ..
    have hstill {n : String} (hn : g.units.contains n = true ∨ n ∈ g.pending) :
        g'.units.contains n = true ∨ n ∈ g'.pending := by
      rw [hunits, hasks.pending]
      rcases hn with hn | hn
      · exact .inl (.inr hn)
      · rw [hpending] at hn
        rcases List.mem_cons.1 hn with rfl | hn
        · exact .inl (.inl rfl)
        · exact .inr (List.mem_append_left _ hn)
    exact
      { text := hasks.text
        given := fun n hn => hasks.kept n (h.given n hn)
        read := fun n hn => by
          rcases hasks.read n hn with hn | ⟨x, hx, hpath⟩
          · exact (h.read n hn).imp_right fun ⟨x, hx, hpath⟩ =>
              ⟨x, List.mem_append_left _ hx, hpath⟩
          · exact .inr ⟨x, List.mem_append_right _ hx, hpath⟩
        asked := fun x hx => by
          rcases List.mem_append.1 hx with hx | hx
          · exact h.asked x hx
          · exact hasks.asked x hx
        pending := fun n hn => by
          rw [hasks.pending] at hn
          rcases List.mem_append.1 hn with hn | hn
          · exact hasks.kept n (h.pending n (by simp [hpending, show n ∈ rest from hn]))
          · obtain ⟨hn, hhas⟩ := List.mem_filter.1 hn
            exact hasks.served n hn hhas
        units := fun n hn => by
          rcases (hunits n).1 hn with rfl | hn
          · exact hasks.kept _ hread
          · exact hasks.kept n (h.units n hn)
        sources := fun n hn => hstill (h.sources n hn)
        imports := fun n hn m hm => by
          rcases (hunits n).1 hn with rfl | hn
          · cases hhas : o.has m with
            | true =>
              refine .inl (.inr ?_)
              rw [hasks.pending]
              exact List.mem_append_right _ (List.mem_filter.2 ⟨hm, hhas⟩)
            | false =>
              obtain ⟨x, hx, hpath⟩ := hasks.refused m hm hhas
              exact .inr ⟨rfl, x, List.mem_append_right _ hx, hpath⟩
          · rcases h.imports n hn m hm with hm | ⟨hhas, x, hx, hpath⟩
            · exact .inl (hstill hm)
            · exact .inr ⟨hhas, x, List.mem_append_left _ hx, hpath⟩ }

end Follows

/-! ## Units and the draft -/

/-- The units and the draft agree with their origin: the handles of a source stand behind a number
of its own, apart from those of other sources. -/
structure Places (o : Origin) (place : String → Int) (units : Table String SourceFile)
    (draft : Draft) : Prop where
  counted : draft.IsCounted
  nodup : units.keys.Nodup
  unit : ∀ n, units.contains n = true →
    units.find? n = some ((o.unit n).relabel (· + place n))
  within : ∀ n, units.contains n = true → 0 ≤ place n ∧ place n + o.size n ≤ draft.count
  apart : ∀ n m, units.contains n = true → units.contains m = true → n ≠ m →
    place n + o.size n ≤ place m ∨ place m + o.size m ≤ place n
  declared : ∀ n, units.contains n = true → ∀ h, 0 < h → h ≤ o.size n →
    draft.declarations.find? (h + place n) =
      ((o.alone n).2.declarations.find? h).map fun d => { d with handle := d.handle + place n }
  found : ∀ n, units.contains n = true →
    draft.findings.filter (·.liesIn n) = (o.alone n).2.findings
  elsewhere : ∀ f ∈ draft.findings, ∃ n, units.contains n = true ∧ f.liesIn n = true

theorem isOf_alone (o : Origin) (name : String) : (o.alone name).2.IsOf name := isOf_parseAlone _ _

/-- What is found in a source lies there and nowhere else. -/
theorem filter_findings_alone (o : Origin) (name other : String) :
    (o.alone name).2.findings.filter (·.liesIn other) =
      if name = other then (o.alone name).2.findings else [] := by
  have hlies : ∀ f ∈ (o.alone name).2.findings, f.liesIn other = decide (name = other) := by
    intro f hf
    obtain ⟨⟨l, hl, hsource⟩, -⟩ := (isOf_alone o name).found f hf
    simp [Finding.liesIn, hl, hsource]
  split
  · next heq => exact List.filter_eq_self.2 fun f hf => by simp [hlies f hf, heq]
  · next hne => exact List.filter_eq_nil_iff.2 fun f hf => by simp [hlies f hf, hne]

namespace Places

theorem empty (o : Origin) : Places o (fun _ => 0) .empty .empty where
  counted := Draft.isCounted_empty
  nodup := .nil
  unit n hn := by simp [Table.contains] at hn
  within n hn := by simp [Table.contains] at hn
  apart n m hn := by simp [Table.contains] at hn
  declared n hn := by simp [Table.contains] at hn
  found n hn := by simp [Table.contains] at hn
  elsewhere f hf := by cases hf

variable {place : String → Int} {units : Table String SourceFile} {draft : Draft}

/-- A unit is that of its source, moved to its place. -/
theorem eq_of_find? (h : Places o place units draft) {n : String} {u : SourceFile}
    (hu : units.find? n = some u) :
    units.contains n = true ∧ u = (o.unit n).relabel (· + place n) := by
  have hcontains : units.contains n = true := by simp [Table.contains, hu]
  exact ⟨hcontains, Option.some.inj (hu.symm.trans (h.unit n hcontains))⟩

/-- No finding lies in a source that is not among the units. -/
theorem filter_findings_of_new (h : Places o place units draft) {name : String}
    (hnew : units.contains name = false) : draft.findings.filter (·.liesIn name) = [] := by
  refine List.filter_eq_nil_iff.2 fun f hf hlies => ?_
  obtain ⟨n, hn, hlies'⟩ := h.elsewhere f hf
  have hsame : n = name := by
    simp only [Finding.liesIn, Option.any_eq_true_iff_get, decide_eq_true_eq] at hlies hlies'
    obtain ⟨hsome, rfl⟩ := hlies
    obtain ⟨_, rfl⟩ := hlies'
    rfl
  rw [hsame, hnew] at hn
  cases hn

/-- Parsing one more source places its handles behind all others. -/
theorem parse (h : Places o place units draft) {name : String}
    (hnew : units.contains name = false) :
    Places o (fun n => if name = n then draft.count else place n)
      (units.insert name ((o.unit name).relabel (· + draft.count)))
      (draft.behind (o.alone name).2) := by
  have halone := isOf_alone o name
  have hne {n : String} (hn : units.contains n = true) : name ≠ n := by
    rintro rfl
    rw [hnew] at hn
    cases hn
  have hcount : (draft.behind (o.alone name).2).count = draft.count + o.size name :=
    Draft.count_behind _ _
  have hsize := o.size_nonneg name
  exact
    { counted := h.counted.behind halone.counted
      nodup := Table.nodup_keys_insert _ _ _ h.nodup
      unit := fun n hn => by
        rw [Table.find?_insert]
        rcases (Table.contains_insert ..).1 hn with rfl | hn
        · simp
        · simpa [hne hn] using h.unit n hn
      within := fun n hn => by
        have hdraft := draft.count_nonneg
        rw [hcount]
        rcases (Table.contains_insert ..).1 hn with rfl | hn
        · simpa using hdraft
        · have := h.within n hn
          simp only [hne hn, if_false]
          omega
      apart := fun n m hn hm hnm => by
        rcases (Table.contains_insert ..).1 hn with rfl | hn <;>
          rcases (Table.contains_insert ..).1 hm with rfl | hm
        · exact absurd rfl hnm
        · simp only [if_true, hne hm, if_false]
          exact .inr (h.within m hm).2
        · simp only [if_true, hne hn, if_false]
          exact .inl (h.within n hn).2
        · simp only [hne hn, hne hm, if_false]
          exact h.apart n m hn hm hnm
      declared := fun n hn x hpos hle => by
        rcases (Table.contains_insert ..).1 hn with rfl | hn
        · simp only [if_true]
          exact Draft.find?_behind_new h.counted hpos
        · have hwithin := h.within n hn
          simp only [hne hn, if_false]
          rw [Draft.find?_behind_old halone.counted (by omega)]
          exact h.declared n hn x hpos hle
      found := fun n hn => by
        show (draft.findings ++ (o.alone name).2.findings).filter _ = _
        rw [List.filter_append, filter_findings_alone]
        rcases (Table.contains_insert ..).1 hn with rfl | hn
        · rw [h.filter_findings_of_new hnew]
          simp
        · simpa [hne hn] using h.found n hn
      elsewhere := fun f hf => by
        rcases List.mem_append.1 hf with hf | hf
        · obtain ⟨n, hn, hlies⟩ := h.elsewhere f hf
          exact ⟨n, (Table.contains_insert ..).2 (.inr hn), hlies⟩
        · obtain ⟨⟨l, hl, hsource⟩, -⟩ := halone.found f hf
          exact ⟨name, (Table.contains_insert ..).2 (.inl rfl), by simp [Finding.liesIn, hl, hsource]⟩ }

/-- Taking up a name keeps all that was gathered in its place.  What is among the units is skipped;
anything else becomes one, and its imports that exist wait behind what waits already. -/
theorem takes {g g' : Gathering} {exchanges exchanges' : List Exchange}
    (h : Places o place g.units g.draft) (hfollows : Follows o exchanges g)
    (htake : Takes o g exchanges' g') :
    ∃ name rest, g.pending = name :: rest ∧
      (g.units.contains name = true ∧ g' = { g with pending := rest } ∨
        g.units.contains name = false ∧
          (∀ n, g'.units.contains n = true ↔ name = n ∨ g.units.contains n = true) ∧
          g'.pending = rest ++ (o.imports name).filter o.has ∧
          ∃ place', Places o place' g'.units g'.draft) := by
  obtain ⟨name, rest, hpending, -, ⟨hknown, -, hskip⟩ | ⟨hnew, hasks⟩⟩ :=
    hfollows.takes_cases h.counted htake
  · exact ⟨name, rest, hpending, .inl ⟨hknown, hskip⟩⟩
  · have hunits := hasks.units
    have hdraft := hasks.draft
    have hparsed := h.parse hnew
    simp only at hunits hdraft
    rw [← hunits, ← hdraft] at hparsed
    refine ⟨name, rest, hpending, .inr ⟨hnew, fun n => ?_, hasks.pending, _, hparsed⟩⟩
    rw [hunits]
    exact Table.contains_insert ..

end Places

/-! ## What was gathered in the end -/

/-- What gathering ends with: nothing waits. -/
structure IsComplete (o : Origin) (place : String → Int) (exchanges : List Exchange)
    (g : Gathering) : Prop where
  follows : Follows o exchanges g
  places : Places o place g.units g.draft
  done : g.pending = []

theorem Gathers.isComplete {n : Nat} {g g' : Gathering} {exchanges exchanges' : List Exchange}
    (h : Gathers o n g exchanges' g') {place : String → Int} (hfollows : Follows o exchanges g)
    (hplaces : Places o place g.units g.draft) :
    ∃ place', IsComplete o place' (exchanges ++ exchanges') g' := by
  induction h generalizing exchanges place with
  | done hpending => exact ⟨place, by simpa using hfollows, hplaces, hpending⟩
  | @take n g g₁ g' exchanges₁ exchanges₂ htake _ ih =>
    rw [← List.append_assoc]
    have hnext := hfollows.takes hplaces.counted htake
    obtain ⟨name, rest, -, ⟨-, rfl⟩ | ⟨-, -, -, place', hplaces'⟩⟩ := hplaces.takes hfollows htake
    · exact ih hnext hplaces
    · exact ih hnext hplaces'

/-- What holds at the end, and before a name is taken up if it holds after it, holds from the
beginning. -/
theorem Gathers.backward {motive : Nat → Gathering → Prop} {n : Nat} {g g' : Gathering}
    {exchanges exchanges' : List Exchange} (h : Gathers o n g exchanges' g') {place : String → Int}
    (hfollows : Follows o exchanges g) (hplaces : Places o place g.units g.draft)
    (done : g'.pending = [] → motive 0 g')
    (skip : ∀ n g name rest, g.pending = name :: rest → g.units.contains name = true →
      motive n { g with pending := rest } → motive (n + 1) g)
    (parse : ∀ n g g₁ name rest, g.pending = name :: rest → g.units.contains name = false →
      (∀ m, g₁.units.contains m = true ↔ name = m ∨ g.units.contains m = true) →
      g₁.pending = rest ++ (o.imports name).filter o.has → motive n g₁ → motive (n + 1) g) :
    motive n g := by
  induction h generalizing exchanges place with
  | done hpending => exact done hpending
  | @take n g g₁ g' exchanges₁ exchanges₂ htake _ ih =>
    have hnext := hfollows.takes hplaces.counted htake
    obtain ⟨name, rest, hpending, ⟨hknown, rfl⟩ | ⟨hnew, hunits, hwaiting, place', hplaces'⟩⟩ :=
      hplaces.takes hfollows htake
    · exact skip n g name rest hpending hknown (ih hnext hplaces done)
    · exact parse n g g₁ name rest hpending hnew hunits hwaiting (ih hnext hplaces' done)

namespace IsComplete

variable {place : String → Int} {exchanges : List Exchange} {g : Gathering}

theorem contains_of_source (h : IsComplete o place exchanges g) {n : String}
    (hn : o.sources.contains n = true) : g.units.contains n = true := by
  have hunit := h.follows.sources n hn
  simpa [h.done] using hunit

/-- An import is a unit exactly if its source exists. -/
theorem contains_of_import (h : IsComplete o place exchanges g) {n m : String}
    (hn : g.units.contains n = true) (hm : m ∈ o.imports n) :
    g.units.contains m = o.has m := by
  rcases h.follows.imports n hn m hm with hunit | ⟨hhas, -⟩
  · have hunit : g.units.contains m = true := by simpa [h.done] using hunit
    rw [hunit, h.follows.has (h.follows.units m hunit)]
  · rw [hhas, Bool.eq_false_iff]
    intro hunit
    rw [h.follows.has (h.follows.units m hunit)] at hhas
    cases hhas

end IsComplete

end Gathering

end Toy

end LanguageServer
