import LanguageServer.Proofs.Table
import LanguageServer.Toy.Parser

/-!
# Reading into a draft

Reading a unit appends to the draft what it declares and what is wrong with it.  The
handles go on from those of the draft; apart from its handles the unit is the same in
every draft.

## Main definitions

* `SourceFile.relabel`, `SourceFile.handles` — the handles of a unit, and other ones in their place.
* `Draft.behind` — a draft that goes on from another one.
* `Parser.Relocates` — a reader does the same in a draft that goes on from another one.

## Main statements

* `parseFile_eq` — reading in a draft is reading in an empty one, and moving the handles.
* `mem_handles_parseAlone` — the handles of a unit are those of its draft.
-/

namespace LanguageServer

namespace Toy

/-! ## Handles -/

/-- The statement with other handles for what it declares. -/
def Statement.relabel (ρ : Int → Int) : Statement → Statement
  | .variable v => .variable { v with handle := ρ v.handle }
  | s => s

/-- The handles that a statement declares. -/
def Statement.handles : Statement → List Int
  | .variable v => [v.handle]
  | _ => []

/-- The parameter with another handle. -/
def Parameter.relabel (ρ : Int → Int) (p : Parameter) : Parameter := { p with handle := ρ p.handle }

/-- The item with other handles for what it declares. -/
def Item.relabel (ρ : Int → Int) : Item → Item
  | .importing path span source => .importing path span source
  | .function f =>
    .function
      { f with
        parameters := f.parameters.map (·.relabel ρ), body := f.body.map (·.relabel ρ)
        handle := ρ f.handle }
  | .statement s => .statement (s.relabel ρ)

/-- The handles that an item declares. -/
def Item.handles : Item → List Int
  | .importing _ _ _ => []
  | .function f => f.handle :: f.parameters.map (·.handle) ++ f.body.flatMap Statement.handles
  | .statement s => s.handles

/-- The unit with other handles for what it declares. -/
def SourceFile.relabel (ρ : Int → Int) (u : SourceFile) : SourceFile :=
  { u with items := u.items.map (·.relabel ρ) }

/-- The handles that a unit declares. -/
def SourceFile.handles (u : SourceFile) : List Int := u.items.flatMap Item.handles

theorem Statement.handles_relabel (ρ : Int → Int) (s : Statement) :
    (s.relabel ρ).handles = s.handles.map ρ := by
  cases s <;> rfl

theorem Item.handles_relabel (ρ : Int → Int) (i : Item) :
    (i.relabel ρ).handles = i.handles.map ρ := by
  cases i with
  | importing path span source => rfl
  | statement s => exact Statement.handles_relabel ρ s
  | function f =>
    simp [Item.relabel, Item.handles, Parameter.relabel, List.flatMap_map, List.map_flatMap,
      Statement.handles_relabel, Function.comp_def]

theorem SourceFile.handles_relabel (ρ : Int → Int) (u : SourceFile) :
    (u.relabel ρ).handles = u.handles.map ρ := by
  simp [SourceFile.relabel, SourceFile.handles, List.flatMap_map, List.map_flatMap,
    Item.handles_relabel]

/-! ## Drafts -/

namespace Draft

/-- The number of declarations. -/
def count (d : Draft) : Int := d.declarations.size

/-- The handles are counted from one. -/
def IsCounted (d : Draft) : Prop := ∀ h ∈ d.declarations.keys, 0 < h ∧ h ≤ d.count

theorem isCounted_empty : Draft.empty.IsCounted := by
  intro h hmem
  cases hmem

theorem count_nonneg (d : Draft) : 0 ≤ d.count := Int.natCast_nonneg _

theorem nextHandle_notMem {d : Draft} (h : d.IsCounted) :
    d.nextHandle ∉ d.declarations.keys := by
  intro hmem
  have hle := (h _ hmem).2
  simp only [nextHandle, count] at hle
  omega

/-- A declaration in a draft goes to its end. -/
theorem entries_declare {d : Draft} (h : d.IsCounted) (source : String) (name : Name) :
    (d.declare source name).declarations.entries =
      d.declarations.entries ++ [(d.nextHandle, declarationOf source name d.nextHandle)] :=
  Table.insertIn_of_notMem (nextHandle_notMem h)

theorem count_declare {d : Draft} (h : d.IsCounted) (source : String) (name : Name) :
    (d.declare source name).count = d.count + 1 := by
  simp [count, Table.size, entries_declare h]

theorem IsCounted.declare {d : Draft} (h : d.IsCounted) (source : String) (name : Name) :
    (d.declare source name).IsCounted := by
  intro handle hmem
  rw [count_declare h]
  simp only [Table.keys, entries_declare h, List.map_append, List.mem_append, List.map_cons,
    List.map_nil, List.mem_singleton] at hmem
  rcases hmem with hmem | rfl
  · have := h handle hmem
    omega
  · have := d.count_nonneg
    simp only [nextHandle, count] at this ⊢
    omega

/-- The draft as it is when it goes on from another one. -/
def behind (base d : Draft) : Draft where
  declarations :=
    ⟨base.declarations.entries ++ d.declarations.entries.map fun e =>
      (e.1 + base.count, { e.2 with handle := e.2.handle + base.count })⟩
  findings := base.findings ++ d.findings

@[simp] theorem behind_empty (base : Draft) : base.behind .empty = base := by
  simp [behind, empty, Table.empty]

theorem count_behind (base d : Draft) : (base.behind d).count = base.count + d.count := by
  simp [behind, count, Table.size]

theorem IsCounted.behind {base d : Draft} (hbase : base.IsCounted) (hd : d.IsCounted) :
    (base.behind d).IsCounted := by
  intro handle hmem
  rw [count_behind]
  have hbase' := base.count_nonneg
  have hd' := d.count_nonneg
  simp only [Table.keys, Draft.behind, List.map_append, List.mem_append, List.map_map] at hmem
  rcases hmem with hmem | hmem
  · have := hbase handle hmem
    omega
  · obtain ⟨e, he, rfl⟩ := List.mem_map.1 hmem
    have := hd e.1 (List.mem_map_of_mem he)
    simp only [Function.comp_apply]
    omega

theorem nextHandle_behind (base d : Draft) :
    (base.behind d).nextHandle = d.nextHandle + base.count := by
  have := count_behind base d
  simp only [nextHandle, count] at this ⊢
  omega

theorem eq_of_entries : {d d' : Draft} → d.declarations.entries = d'.declarations.entries →
    d.findings = d'.findings → d = d'
  | ⟨⟨_⟩, _⟩, ⟨⟨_⟩, _⟩, rfl, rfl => rfl

/-- Declaring in a draft that goes on from another one. -/
theorem declare_behind {base d : Draft} (hbase : base.IsCounted) (hd : d.IsCounted)
    (source : String) (name : Name) :
    (base.behind d).declare source name = base.behind (d.declare source name) := by
  refine eq_of_entries ?_ rfl
  rw [entries_declare (hbase.behind hd), nextHandle_behind]
  simp [behind, entries_declare hd, declarationOf]

theorem report_behind (base d : Draft) (f : Finding) :
    (base.behind d).report f = base.behind (d.report f) := by
  simp [behind, report]

/-- What a draft declares stays in one that goes on from it. -/
theorem find?_behind_old {base d : Draft} (hd : d.IsCounted) {h : Int} (hle : h ≤ base.count) :
    (base.behind d).declarations.find? h = base.declarations.find? h := by
  have hnone : Table.findIn h (d.declarations.entries.map fun e =>
      (e.1 + base.count, { e.2 with handle := e.2.handle + base.count })) = none := by
    rw [← Option.not_isSome_iff_eq_none, Table.findIn_isSome_iff]
    intro hmem
    obtain ⟨e', he', rfl⟩ := List.mem_map.1 hmem
    obtain ⟨e, he, rfl⟩ := List.mem_map.1 he'
    have := (hd e.1 (List.mem_map_of_mem he)).1
    simp only at hle
    omega
  unfold Table.find? behind
  rw [Table.findIn_append, hnone, Option.or_none]

/-- What is declared in a draft that goes on from another one stands behind the declarations there. -/
theorem find?_behind_new {base d : Draft} (hbase : base.IsCounted) {h : Int} (hpos : 0 < h) :
    (base.behind d).declarations.find? (h + base.count) =
      (d.declarations.find? h).map fun declaration =>
        { declaration with handle := declaration.handle + base.count } := by
  have hnone : Table.findIn (h + base.count) base.declarations.entries = none := by
    rw [← Option.not_isSome_iff_eq_none, Table.findIn_isSome_iff]
    intro hmem
    have := (hbase _ hmem).2
    omega
  have hmoved : ∀ l : List (Int × Declaration),
      Table.findIn (h + base.count)
          (l.map fun e => (e.1 + base.count, { e.2 with handle := e.2.handle + base.count })) =
        (Table.findIn h l).map fun declaration =>
          { declaration with handle := declaration.handle + base.count } := by
    intro l
    induction l with
    | nil => rfl
    | cons e rest ih =>
      simp only [List.map_cons, Table.findIn, ih, Int.add_left_inj]
      split <;> rfl
  unfold Table.find? behind
  rw [Table.findIn_append, hnone, Option.none_or]
  exact hmoved _

/-- The draft of one source: its handles are counted from one, and all that it holds lies in the
source. -/
structure IsOf (source : String) (d : Draft) : Prop where
  counted : d.IsCounted
  numbered : ∀ e ∈ d.declarations.entries, e.2.handle = e.1
  declared : ∀ e ∈ d.declarations.entries, e.2.location.source = source
  found : ∀ f ∈ d.findings, (∃ l, f.location = some l ∧ l.source = source) ∧ f.related = []

theorem isOf_empty (source : String) : Draft.empty.IsOf source where
  counted := isCounted_empty
  numbered e he := by cases he
  declared e he := by cases he
  found f hf := by cases hf

theorem IsOf.declare {source : String} {d : Draft} (h : d.IsOf source) (name : Name) :
    (d.declare source name).IsOf source where
  counted := h.counted.declare source name
  numbered e he := by
    rw [entries_declare h.counted, List.mem_append, List.mem_singleton] at he
    rcases he with he | rfl
    · exact h.numbered e he
    · rfl
  declared e he := by
    rw [entries_declare h.counted, List.mem_append, List.mem_singleton] at he
    rcases he with he | rfl
    · exact h.declared e he
    · rfl
  found := h.found

theorem IsOf.report {source : String} {d : Draft} (h : d.IsOf source) (e : SyntaxError) :
    (d.report (e.finding source)).IsOf source where
  counted := h.counted
  numbered := h.numbered
  declared := h.declared
  found f hf := by
    rcases List.mem_append.1 hf with hf | hf
    · exact h.found f hf
    · obtain rfl := List.mem_singleton.1 hf
      exact ⟨⟨_, rfl, rfl⟩, rfl⟩

end Draft

/-! ## Readers -/

/-- The state with a draft that goes on from another one. -/
def ParserState.behind (base : Draft) (s : ParserState) : ParserState :=
  { s with draft := base.behind s.draft }

namespace Parser

variable {α β γ δ : Type} {source : String} {base : Draft} {ρ : Int → Int}

/-- The handles above one number, up to another one, are moved behind those of a draft. -/
def Moves (base : Draft) (ρ : Int → Int) (low high : Int) : Prop :=
  ∀ h, low < h → h ≤ high → ρ h = h + base.count

theorem Moves.lower {low mid high : Int} (h : Moves base ρ low high) (hle : mid ≤ high) :
    Moves base ρ low mid := fun x hx hx' => h x hx (Int.le_trans hx' hle)

theorem Moves.upper {low mid high : Int} (h : Moves base ρ low high) (hle : low ≤ mid) :
    Moves base ρ mid high := fun x hx hx' => h x (Int.lt_of_le_of_lt hle hx) hx'

/-- A reader of a source does the same in a draft that goes on from `base` as another reader in the
draft alone, if `ρ` moves the handles of what is declared meanwhile; `f` is what becomes of the
value. -/
def Relocates (source : String) (base : Draft) (ρ : Int → Int) (p : Parser α) (p' : Parser β)
    (f : α → β) : Prop :=
  ∀ s, s.draft.IsOf source →
    match p s with
    | .ok a t =>
      t.draft.IsOf source ∧ s.draft.count ≤ t.draft.count ∧
        (Moves base ρ s.draft.count t.draft.count →
          p' (s.behind base) = .ok (f a) (t.behind base))
    | .error e t =>
      t.draft.IsOf source ∧ s.draft.count ≤ t.draft.count ∧
        (Moves base ρ s.draft.count t.draft.count →
          p' (s.behind base) = .error e (t.behind base))

namespace Relocates

theorem pure {a : α} {b : β} {f : α → β} (h : b = f a) :
    Relocates source base ρ (Pure.pure a : Parser α) (Pure.pure b) f :=
  fun _ hs => ⟨hs, Int.le_refl _, fun _ => by rw [h]; rfl⟩

theorem bind {p : Parser α} {p' : Parser β} {f : α → β} {q : α → Parser γ} {q' : β → Parser δ}
    {g : γ → δ} (hp : Relocates source base ρ p p' f)
    (hq : ∀ a, Relocates source base ρ (q a) (q' (f a)) g) :
    Relocates source base ρ (p >>= q) (p' >>= q') g := by
  intro s hs
  have hp := hp s hs
  simp only [Bind.bind, EStateM.bind]
  cases h : p s with
  | error e t =>
    rw [h] at hp
    obtain ⟨ht, hle, hp⟩ := hp
    exact ⟨ht, hle, fun hm => by rw [hp hm]⟩
  | ok a t =>
    rw [h] at hp
    obtain ⟨ht, hle, hp⟩ := hp
    have hq := hq a t ht
    simp only
    cases h' : q a t with
    | ok b t' =>
      rw [h'] at hq
      obtain ⟨ht', hle', hq⟩ := hq
      refine ⟨ht', Int.le_trans hle hle', fun hm => ?_⟩
      rw [hp (hm.lower hle')]
      exact hq (hm.upper hle)
    | error e t' =>
      rw [h'] at hq
      obtain ⟨ht', hle', hq⟩ := hq
      refine ⟨ht', Int.le_trans hle hle', fun hm => ?_⟩
      rw [hp (hm.lower hle')]
      exact hq (hm.upper hle)

/-- Going on from a value without handles. -/
theorem andThen {p : Parser α} {q : α → Parser γ} {q' : α → Parser δ} {g : γ → δ}
    (hp : Relocates source base ρ p p id) (hq : ∀ a, Relocates source base ρ (q a) (q' a) g) :
    Relocates source base ρ (p >>= q) (p >>= q') g := bind hp hq

/-- Going on from the tokens ahead. -/
theorem get_bind {q : ParserState → Parser γ} {q' : ParserState → Parser δ} {g : γ → δ}
    (hq : ∀ s, Relocates source base ρ (q s) (q' (s.behind base)) g) :
    Relocates source base ρ (get >>= q) (get >>= q') g := fun s hs => hq s s hs

end Relocates

theorem relocates_current : Relocates source base ρ current current id :=
  .get_bind fun _ => .pure rfl

theorem relocates_following : Relocates source base ρ following following id :=
  .get_bind fun _ => .pure rfl

theorem relocates_advance : Relocates source base ρ advance advance id := by
  refine .andThen relocates_current fun token => .bind (f := id) ?_ fun _ => .pure rfl
  exact fun s hs => ⟨hs, Int.le_refl _, fun _ => rfl⟩

theorem relocates_check (text : String) : Relocates source base ρ (check text) (check text) id :=
  .andThen relocates_current fun _ => .pure rfl

theorem relocates_reject (problem : SyntaxProblem) (f : α → β) :
    Relocates source base ρ (reject problem : Parser α) (reject problem) f :=
  .andThen relocates_current fun _ => fun _ hs => ⟨hs, Int.le_refl _, fun _ => rfl⟩

theorem relocates_expect (text : String) : Relocates source base ρ (expect text) (expect text) id := by
  refine .andThen (relocates_check text) fun here => ?_
  split
  · exact relocates_advance
  · exact relocates_reject _ _

theorem relocates_identifier : Relocates source base ρ identifier identifier id := by
  refine .andThen relocates_current fun token => ?_
  split
  · exact .andThen relocates_advance fun _ => .pure rfl
  · exact relocates_reject _ _

/-- A declaration is numbered behind those of the draft that it goes on from. -/
theorem relocates_declare (hbase : base.IsCounted) (name : Name) :
    Relocates source base ρ (declare source name) (declare source name) ρ := by
  intro s hs
  have hcount := Draft.count_declare hs.counted source name
  refine ⟨hs.declare name, ?_, fun hm => ?_⟩
  · show s.draft.count ≤ (s.draft.declare source name).count
    omega
  · have hnext : ρ s.draft.nextHandle = (base.behind s.draft).nextHandle := by
      rw [Draft.nextHandle_behind]
      refine hm _ (Int.lt_succ _) ?_
      show s.draft.count + 1 ≤ (s.draft.declare source name).count
      omega
    rw [hnext]
    show EStateM.Result.ok _ { s.behind base with draft := (base.behind s.draft).declare source name }
      = _
    rw [Draft.declare_behind hbase hs.counted]
    rfl

/-! ## Expressions -/

theorem relocates_expressions (n : Nat) :
    Relocates source base ρ (term n) (term n) id ∧
      Relocates source base ρ (expression n) (expression n) id ∧
      Relocates source base ρ (moreOperands n) (moreOperands n) id ∧
      Relocates source base ρ (moreArguments n) (moreArguments n) id := by
  induction n with
  | zero =>
    refine ⟨relocates_reject _ _, relocates_reject _ _, .pure rfl, .pure rfl⟩
  | succ n ih =>
    obtain ⟨hterm, hexpression, hoperands, harguments⟩ := ih
    refine ⟨?_, ?_, ?_, ?_⟩
    · unfold term
      refine .andThen relocates_current fun token => ?_
      split
      · exact .andThen relocates_advance fun _ => .pure rfl
      · exact .andThen relocates_advance fun _ => .pure rfl
      · split
        · refine .andThen relocates_advance fun _ => .andThen (relocates_check _) fun called => ?_
          split
          · refine .andThen relocates_advance fun _ => .andThen ?_ fun arguments =>
              .andThen (relocates_expect _) fun close => .pure rfl
            refine .andThen (relocates_check _) fun closed => ?_
            split
            · exact .pure rfl
            · exact .andThen hexpression fun first => .andThen harguments fun _ => .pure rfl
          · exact .pure rfl
        · exact relocates_reject _ _
    · unfold expression
      refine .andThen hterm fun first => .andThen hoperands fun rest => ?_
      split <;> exact .pure rfl
    · unfold moreOperands
      refine .andThen (relocates_check _) fun more => ?_
      split
      · exact .andThen relocates_advance fun _ => .andThen hterm fun operand =>
          .andThen hoperands fun _ => .pure rfl
      · exact .pure rfl
    · unfold moreArguments
      refine .andThen (relocates_check _) fun more => ?_
      split
      · exact .andThen relocates_advance fun _ => .andThen hexpression fun argument =>
          .andThen harguments fun _ => .pure rfl
      · exact .pure rfl

theorem relocates_anExpression : Relocates source base ρ anExpression anExpression id :=
  .get_bind fun s => (relocates_expressions (2 * s.ahead.length + 2)).2.1

/-! ## Statements -/

theorem relocates_firstValue : Relocates source base ρ firstValue firstValue id := by
  refine .andThen (relocates_check _) fun given => ?_
  split
  · exact .andThen relocates_advance fun _ => .andThen relocates_anExpression fun _ => .pure rfl
  · exact .pure rfl

theorem relocates_typeName : Relocates source base ρ typeName typeName id := by
  refine .andThen (relocates_check _) fun given => ?_
  split
  · exact .andThen relocates_advance fun _ => .andThen relocates_identifier fun _ => .pure rfl
  · exact .pure rfl

theorem relocates_variableDeclaration (hbase : base.IsCounted) :
    Relocates source base ρ (variableDeclaration source) (variableDeclaration source)
      (Statement.relabel ρ) :=
  .andThen relocates_advance fun _ => .andThen relocates_identifier fun name =>
    .andThen relocates_typeName fun _ => .andThen relocates_firstValue fun _ =>
      .andThen (relocates_expect _) fun _ => .bind (relocates_declare hbase name)
        fun _ => .pure rfl

theorem relocates_assignment :
    Relocates source base ρ assignment assignment (Statement.relabel ρ) :=
  .andThen relocates_advance fun _ => .andThen (relocates_expect _) fun _ =>
    .andThen relocates_anExpression fun _ => .andThen (relocates_expect _) fun _ => .pure rfl

theorem relocates_giveBack : Relocates source base ρ giveBack giveBack (Statement.relabel ρ) := by
  refine .andThen relocates_advance fun _ => .andThen ?_ fun _ =>
    .andThen (relocates_expect _) fun _ => .pure rfl
  refine .andThen (relocates_check _) fun closed => ?_
  split
  · exact .pure rfl
  · exact .andThen relocates_anExpression fun _ => .pure rfl

theorem relocates_assignmentOrExpression :
    Relocates source base ρ assignmentOrExpression assignmentOrExpression (Statement.relabel ρ) := by
  refine .andThen relocates_current fun token => .andThen relocates_following fun next => ?_
  split
  · exact relocates_assignment
  · exact .andThen relocates_anExpression fun _ => .andThen (relocates_expect _) fun _ => .pure rfl

theorem relocates_bodyStatement (hbase : base.IsCounted) :
    Relocates source base ρ (bodyStatement source) (bodyStatement source) (Statement.relabel ρ) := by
  refine .andThen relocates_current fun token => ?_
  repeat' split
  · exact relocates_reject _ _
  · exact relocates_variableDeclaration hbase
  · exact relocates_reject _ _
  · exact relocates_giveBack
  · exact relocates_assignmentOrExpression

/-- Going on after a mistake. -/
theorem relocates_orSkip {p p' : Parser α} {f : α → α}
    (hp : Relocates source base ρ p p' f) :
    Relocates source base ρ (orSkip source p) (orSkip source p') (Option.map f) := by
  intro s hs
  have hp := hp s hs
  unfold orSkip
  cases h : p s with
  | ok a t =>
    rw [h] at hp
    obtain ⟨ht, hle, hp⟩ := hp
    exact ⟨ht, hle, fun hm => by rw [hp hm]; rfl⟩
  | error e t =>
    rw [h] at hp
    obtain ⟨ht, hle, hp⟩ := hp
    refine ⟨ht.report e, hle, fun hm => ?_⟩
    rw [hp hm]
    show EStateM.Result.ok none _ = EStateM.Result.ok none _
    rw [show (t.behind base).draft.report (e.finding source)
      = base.behind (t.draft.report (e.finding source)) from Draft.report_behind ..]
    rfl

/-! ## Functions and units -/

theorem relocates_moreParameters (hbase : base.IsCounted) (n : Nat) :
    Relocates source base ρ (moreParameters source n) (moreParameters source n)
      (List.map (Parameter.relabel ρ)) := by
  induction n with
  | zero => exact .pure rfl
  | succ n ih =>
    refine .andThen (relocates_check _) fun more => ?_
    split
    · exact .andThen relocates_advance fun _ => .andThen relocates_identifier fun name =>
        .bind (relocates_declare hbase name) fun _ => .bind ih fun _ => .pure rfl
    · exact .pure rfl

theorem relocates_parameters (hbase : base.IsCounted) :
    Relocates source base ρ (parameters source) (parameters source)
      (List.map (Parameter.relabel ρ)) := by
  refine .andThen (relocates_check _) fun closed => ?_
  split
  · exact .pure rfl
  · exact .andThen relocates_identifier fun name =>
      .bind (relocates_declare hbase name) fun _ => .get_bind fun s =>
        .bind (relocates_moreParameters hbase s.ahead.length) fun _ => .pure rfl

theorem relocates_body (hbase : base.IsCounted) (n : Nat) :
    Relocates source base ρ (body source n) (body source n) (List.map (Statement.relabel ρ)) := by
  induction n with
  | zero => exact .pure rfl
  | succ n ih =>
    refine .andThen (relocates_check _) fun closed => ?_
    split
    · exact .pure rfl
    · refine .andThen relocates_current fun token => ?_
      split
      · exact relocates_reject _ _
      · refine .bind (relocates_orSkip (relocates_bodyStatement hbase)) fun s =>
          .bind ih fun _ => .pure ?_
        cases s <;> rfl

theorem relocates_functionDefinition (hbase : base.IsCounted) :
    Relocates source base ρ (functionDefinition source) (functionDefinition source) (Item.relabel ρ) :=
  .andThen relocates_advance fun _ => .andThen relocates_identifier fun name =>
    .andThen (relocates_expect _) fun _ => .bind (relocates_parameters hbase) fun _ =>
      .andThen (relocates_expect _) fun _ => .andThen (relocates_expect _) fun _ =>
        .get_bind fun s => .bind (relocates_body hbase (s.ahead.length + 1)) fun _ =>
          .andThen relocates_advance fun _ => .bind (relocates_declare hbase name)
            fun _ => .pure rfl

theorem relocates_importDirective :
    Relocates source base ρ importDirective importDirective (Item.relabel ρ) := by
  refine .andThen relocates_advance fun _ => .andThen relocates_current fun path => ?_
  split
  · exact .andThen relocates_advance fun _ => .andThen (relocates_expect _) fun _ => .pure rfl
  · exact relocates_reject _ _

theorem relocates_item (hbase : base.IsCounted) :
    Relocates source base ρ (item source) (item source) (Item.relabel ρ) := by
  refine .andThen relocates_current fun token => ?_
  repeat' split
  · exact relocates_importDirective
  · exact .bind (relocates_variableDeclaration hbase) fun _ => .pure rfl
  · exact relocates_functionDefinition hbase
  · exact relocates_reject _ _
  · exact .bind relocates_assignmentOrExpression fun _ => .pure rfl

theorem relocates_items (hbase : base.IsCounted) (n : Nat) :
    Relocates source base ρ (items source n) (items source n) (List.map (Item.relabel ρ)) := by
  induction n with
  | zero => exact .pure rfl
  | succ n ih =>
    refine .andThen relocates_current fun token => ?_
    split
    · exact .pure rfl
    · refine .bind (relocates_orSkip (relocates_item hbase)) fun i =>
        .bind ih fun _ => .pure ?_
      cases i <;> rfl

end Parser

/-! ## Units -/

@[simp] theorem source_parseFile (source text : String) (draft : Draft) :
    (parseFile source text draft).1.source = source := by
  unfold parseFile
  simp only
  split <;> rfl

/-- The unit of a text, and its draft, when nothing was read before. -/
def parseAlone (source text : String) : SourceFile × Draft := parseFile source text .empty

/-- The state before the unit of a text is read. -/
def startOf (text : String) : ParserState :=
  { ahead := tokens text.toList, finish := endToken text.toList, draft := .empty }

theorem parseFile_relocates {base : Draft} (hbase : base.IsCounted) (source text : String)
    (ρ : Int → Int) :
    (parseAlone source text).2.IsOf source ∧
      (Parser.Moves base ρ 0 (parseAlone source text).2.count →
        parseFile source text base =
          ((parseAlone source text).1.relabel ρ, base.behind (parseAlone source text).2)) := by
  have hitems : Parser.Relocates source base ρ _ _ _ :=
    Parser.relocates_items hbase ((startOf text).ahead.length + 1)
  have hitems := hitems (startOf text) (Draft.isOf_empty source)
  have hstart : ({ ahead := tokens text.toList, finish := endToken text.toList, draft := base } :
      ParserState) = (startOf text).behind base := by
    simp [startOf, ParserState.behind]
  unfold parseAlone parseFile
  simp only [hstart, show ({ ahead := tokens text.toList, finish := endToken text.toList
                             draft := .empty } : ParserState) = startOf text from rfl,
    show (tokens text.toList).length = (startOf text).ahead.length from rfl]
  cases h : Parser.items source ((startOf text).ahead.length + 1) (startOf text) with
  | ok items s =>
    rw [h] at hitems
    refine ⟨hitems.1, fun hρ => ?_⟩
    rw [hitems.2.2 hρ]
    rfl
  | error e s =>
    rw [h] at hitems
    refine ⟨hitems.1, fun hρ => ?_⟩
    rw [hitems.2.2 hρ]
    rfl

theorem isOf_parseAlone (source text : String) : (parseAlone source text).2.IsOf source :=
  (parseFile_relocates Draft.isCounted_empty source text id).1

/-- Reading in a draft is reading alone and moving the handles.  It does not matter what becomes of
handles that were not given. -/
theorem parseFile_eq {base : Draft} (hbase : base.IsCounted) (source text : String) {ρ : Int → Int}
    (hρ : Parser.Moves base ρ 0 (parseAlone source text).2.count) :
    parseFile source text base =
      ((parseAlone source text).1.relabel ρ, base.behind (parseAlone source text).2) :=
  (parseFile_relocates hbase source text ρ).2 hρ

/-- The handles of a unit are those that were given while it was read. -/
theorem mem_handles_parseAlone {source text : String} {h : Int}
    (hmem : h ∈ (parseAlone source text).1.handles) :
    0 < h ∧ h ≤ (parseAlone source text).2.count := by
  -- Handles that were not given could be moved anywhere, so there are none.
  have hmoves : Parser.Moves .empty
      (fun h => if 0 < h ∧ h ≤ (parseAlone source text).2.count then h else h + 1) 0
      (parseAlone source text).2.count := by
    intro h hlow hhigh
    simp [hlow, hhigh, show Draft.empty.count = 0 from rfl]
  have hunit := congrArg (fun r => r.1.handles)
    (parseFile_eq Draft.isCounted_empty source text hmoves)
  simp only [SourceFile.handles_relabel] at hunit
  refine Decidable.byContradiction fun hnot => ?_
  have hsame := List.map_inj_left.1 ((List.map_id _).trans hunit) h hmem
  simp only [id_eq, hnot, if_false] at hsame
  omega

end Toy

end LanguageServer
