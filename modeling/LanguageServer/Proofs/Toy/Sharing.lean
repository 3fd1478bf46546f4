import LanguageServer.Proofs.Toy.Exactness

/-!
# What a name means to an importer and to the imported unit

A unit and another one that imports nothing else look a name up in different scopes.  The scope of
the unit itself keeps the first declaration of the name and reports the others; the scope of what
is imported is filled without such a check, and keeps the last one.  So the two units agree on a
name if and only if it is declared once, and they do not agree on one that is declared twice.

A node at the top level that imports nothing is looked up as well, like an import of the unit whose
name is empty; what that unit declares can lie over what is imported.

## Main definitions

* `CompiledUnit.handlesOf` — what a unit declares under a name at its top level.
* `Program.brought` — what the nodes of a unit bring under a name from other units.
* `CompiledUnit.topLevelUses` — the uses of a name at the top level of a unit.
* `Program.IsOverlaid` — the unit without a name has the last word.

## Main statements

* `Gathering.IsSound.references_topLevel` — what a use at the top level of a unit refers to.
* `shares_compile` — when a unit and its only import agree on a name.
-/

namespace LanguageServer

open Toy

/-- The handles that some nodes declare under a name, in their order. -/
def Node.handlesUnder (name : String) (l : List Node) : List Int :=
  l.filterMap fun n => if n.label.name = some name then n.label.declares else none

/-- The handles that a unit declares under a name at its top level, in their order. -/
def CompiledUnit.handlesOf (u : CompiledUnit) (name : String) : List Int :=
  Node.handlesUnder name u.root.children

/-- The handles that a node at the top level of a unit brings under a name: those of the unit that it
imports.  A node that imports nothing counts as one that imports the unit with the empty name. -/
def Program.broughtBy (p : Program) (name : String) (n : Node) : List Int :=
  ((p.units.find? (n.label.importedSource.getD "")).map (·.handlesOf name)).getD []

/-- The handles that the nodes of a unit bring under a name, in their order. -/
def Program.brought (p : Program) (u : CompiledUnit) (name : String) : List Int :=
  u.root.children.flatMap (p.broughtBy name)

/-- The uses of a name at the top level of a unit, outside its functions. -/
def CompiledUnit.topLevelUses (u : CompiledUnit) (name : String) : List Node :=
  (Node.preorderAll (u.root.children.filter (·.kind ≠ "FunctionDefinition"))).filter fun m =>
    m.kind = "Identifier" ∧ m.label.name = some name

/-- A unit imports a source, and no other one. -/
def CompiledUnit.ImportsOnly (u : CompiledUnit) (source : String) : Prop :=
  u.imports ≠ [] ∧ ∀ s ∈ u.imports, s = source

/-- What a unit imports under a name lies below what the unit with the empty name declares, since the
last node of the importer imports nothing. -/
def Program.IsOverlaid (p : Program) (u : CompiledUnit) (source name : String) : Prop :=
  source ≠ "" ∧ (u.root.children.getLast?.bind (·.label.importedSource)) = none ∧
    ∃ w, p.units.find? "" = some w ∧ w.handlesOf name ≠ []

namespace Toy

/-! ## Handles under a name -/

variable {name : String}

theorem sublist_handlesUnder (name : String) (l : List Node) :
    (Node.handlesUnder name l).Sublist (Node.declared l) := by
  induction l with
  | nil => exact .slnil
  | cons n rest ih =>
    have hself : (Node.handlesUnder name [n]).Sublist (Node.declared [n]) := by
      rw [Node.declared_singleton]
      refine .trans ?_ (List.sublist_append_left _ _)
      by_cases heq : n.label.name = some name
      · cases hdeclares : n.label.declares <;> simp [Node.handlesUnder, heq, hdeclares]
      · simp [Node.handlesUnder, heq]
    rw [← List.singleton_append, Node.declared_append, Node.handlesUnder, List.filterMap_append]
    exact hself.append ih

theorem sublist_handlesOf (u : CompiledUnit) (name : String) :
    (u.handlesOf name).Sublist (Node.declared [u.root]) := by
  rw [Node.declared_singleton]
  exact (sublist_handlesUnder name _).trans (List.sublist_append_right _ _)

/-- The handles under a name are those of the declarations with it. -/
theorem SourceFile.handlesOf_toUnit (u : SourceFile) (name : String) :
    u.toUnit.handlesOf name = (u.declarations.filter (·.name = name)).map (·.handle) := by
  unfold CompiledUnit.handlesOf Node.handlesUnder SourceFile.declarations SourceFile.toUnit
  rw [List.filterMap_map, ← List.filterMap_eq_filter, List.filterMap_filterMap, List.map_filterMap]
  refine List.filterMap_congr fun i _ => ?_
  cases i with
  | statement s =>
    cases s with
    | «variable» v =>
      by_cases heq : v.name.text = name <;>
        simp [Item.toNode, Statement.toNode, Item.declares?, declarationOf, Option.guard, heq]
    | _ => simp [Item.toNode, Statement.toNode, Item.declares?]
  | function f =>
    by_cases heq : f.name.text = name <;>
      simp [Item.toNode, Item.declares?, declarationOf, Option.guard, heq]
  | importing path span source => simp [Item.toNode, Item.declares?]

/-- Binding leaves the handles under a name alone. -/
theorem SourceFile.handlesOf_bind (units : Table String SourceFile) (u : SourceFile) (c : Checker)
    (name : String) : (u.bind units c).2.toUnit.handlesOf name =
      (u.declarations.filter (·.name = name)).map (·.handle) := by
  rw [handlesOf_toUnit, declarations_eq_outline, outline_bind, ← declarations_eq_outline]

/-- A unit imports what its nodes at the top level import. -/
theorem SourceFile.imports_eq_children (u : SourceFile) :
    u.toUnit.imports = u.toUnit.root.children.filterMap (·.label.importedSource) := by
  rw [imports_toUnit, toUnit, List.filterMap_map]
  exact List.filterMap_congr fun i _ => (Item.importedSource_toNode u.source i).symm

/-- The nodes at the top level import the same after binding. -/
theorem SourceFile.map_importedSource_bind (units : Table String SourceFile) (u : SourceFile)
    (c : Checker) : (u.bind units c).2.toUnit.root.children.map (·.label.importedSource) =
      u.items.map (·.source?) := by
  have houtline := congrArg (fun o => o.2.map (·.1)) (u.outline_bind units c)
  simp only [outline, List.map_map] at houtline
  simp only [toUnit, List.map_map, Function.comp_def, Item.importedSource_toNode]
  exact houtline

namespace Gathering.IsSound

variable {sources : Table String String} {exchanges : List Exchange} {g : Gathering}

/-! ## What uses refer to -/

/-- What a unit declares under a name, before and after binding. -/
theorem handlesOf_bindAll (h : g.IsSound sources exchanges) (s : String) :
    (((bindAll g).units.find? s).map (·.handlesOf name)).getD [] =
      ((((g.units.find? s).map (·.declarations)).getD []).filter (·.name = name)).map (·.handle) := by
  cases hw : (bindAll g).units.find? s with
  | none =>
    have hnone : g.units.contains s = false :=
      contains_bindAll g s ▸ (Table.contains_eq_false_iff _ _).2 hw
    rw [(Table.contains_eq_false_iff _ _).1 hnone]
    rfl
  | some w =>
    obtain ⟨u, c, hu, rfl⟩ := exists_bind_of_bindAll h.keys hw
    rw [hu]
    exact u.handlesOf_bind g.units c name

/-- What the nodes of a unit bring under a name are the handles of what its items bring. -/
theorem brought_bindAll (h : g.IsSound sources exchanges) (u : SourceFile) (c : Checker) :
    (bindAll g).brought (u.bind g.units c).2.toUnit name =
      ((u.brought g.units).filter (·.name = name)).map (·.handle) := by
  have hkeys := u.map_importedSource_bind g.units c
  unfold Program.brought SourceFile.brought
  calc ((u.bind g.units c).2.toUnit.root.children.flatMap ((bindAll g).broughtBy name))
    _ = ((u.bind g.units c).2.toUnit.root.children.map (·.label.importedSource)).flatMap
          fun o => (((bindAll g).units.find? (o.getD "")).map (·.handlesOf name)).getD [] := by
      rw [List.flatMap_map]
      rfl
    _ = _ := by
      rw [hkeys, List.flatMap_map, List.filter_flatMap, List.map_flatMap]
      exact List.flatMap_congr fun i _ => h.handlesOf_bindAll i.key

/-- A use at the top level of a unit refers to the first declaration of its name in the unit, else to
the last one that the nodes of the unit bring. -/
theorem references_topLevel (h : g.IsSound sources exchanges) {s : String} {w : CompiledUnit}
    (hw : (bindAll g).units.find? s = some w) {m : Node} (hm : m ∈ w.topLevelUses name) :
    m.label.references =
      (w.handlesOf name).head?.or ((bindAll g).brought w name).getLast? := by
  obtain ⟨u, c, hu, rfl⟩ := exists_bind_of_bindAll h.keys hw
  obtain ⟨hmem, hnamed⟩ := List.mem_filter.1 hm
  obtain ⟨hkind, hname⟩ := of_decide_eq_true hnamed
  obtain ⟨n, hn, hmn⟩ := mem_preorderAll.1 hmem
  obtain ⟨hn, houtside⟩ := List.mem_filter.1 hn
  obtain ⟨rfl, text, -, hsound⟩ := h.unit _ u hu
  obtain ⟨i, hi, rfl⟩ := List.mem_map.1 hn
  have hlaid := fun k hk => (isSoundIn_bind c hsound k hk).laidOut
  have hresolved : i.IsResolved u.source fun name =>
      (firstNamed name u.declarations).or (firstNamed name (u.brought g.units).reverse) := by
    refine Checker.isResolved_bindItems (fun name => ?_) _ u.items i hi
    rw [findInnermost_cons, findInnermost_cons, Checker.find?_addAll,
      find?_importedScope_brought]
    simp [findInnermost]
  have hrefers := Item.references_eq hresolved
    (fun k hk => hlaid k (mem_preorder.2 (.inr ⟨_, hn, hk⟩))) hmn hkind
  have hspelled := ((u.bind g.units c).2.hasLeafUses m (mem_preorder.2 (.inr ⟨_, hn, hmn⟩))
    (by simp [Node.isUse, hkind])).name
  obtain rfl : m.use.name.text = name := Option.some.inj (hspelled.symm.trans hname)
  have hother : (i.toNode u.source).kind ≠ "FunctionDefinition" := of_decide_eq_true houtside
  rw [if_neg hother] at hrefers
  rw [hrefers, SourceFile.handlesOf_bind, h.brought_bindAll, List.head?_map, List.head?_filter,
    List.getLast?_map, List.getLast?_filter, ← Option.map_or]
  rfl

/-! ## Importer and imported unit -/

/-- The nodes of a unit that imports one source import it or nothing, and one of them imports it. -/
theorem importedSource_of_importsOnly (h : g.IsSound sources exchanges) {s t : String}
    {u : CompiledUnit} (hu : (bindAll g).units.find? s = some u) (honly : u.ImportsOnly t) :
    (∀ n ∈ u.root.children, n.label.importedSource = none ∨ n.label.importedSource = some t) ∧
      ∃ n ∈ u.root.children, n.label.importedSource = some t := by
  obtain ⟨u, c, -, rfl⟩ := exists_bind_of_bindAll h.keys hu
  obtain ⟨hsome, hall⟩ := honly
  rw [SourceFile.imports_eq_children] at hsome hall
  constructor
  · intro n hn
    cases hsource : n.label.importedSource with
    | none => exact .inl rfl
    | some other => exact .inr (congrArg some (hall other (List.mem_filterMap.2 ⟨n, hn, hsource⟩)))
  · obtain ⟨other, hother⟩ := List.exists_mem_of_ne_nil _ hsome
    obtain ⟨n, hn, hsource⟩ := List.mem_filterMap.1 hother
    exact ⟨n, hn, hall other hother ▸ hsource⟩

end Gathering.IsSound

variable {p : Program} {s t : String} {u v w : CompiledUnit}

/-- Units of two names declare no handle in common. -/
theorem disjoint_handlesOf
    (hnodup : (p.units.values.flatMap fun u => Node.declared [u.root]).Nodup) (hne : s ≠ t)
    (hu : p.units.find? s = some u) (hv : p.units.find? t = some v) :
    (u.handlesOf name).Disjoint (v.handlesOf name) := by
  have hapart := Table.disjoint_of_nodup hnodup hne hu hv
  exact fun handle hhandle hhandle' => hapart ((sublist_handlesOf u name).subset hhandle)
    ((sublist_handlesOf v name).subset hhandle')

theorem nodup_handlesOf
    (hnodup : (p.units.values.flatMap fun u => Node.declared [u.root]).Nodup)
    (hu : p.units.find? s = some u) : (u.handlesOf name).Nodup :=
  (Table.nodup_of_nodup hnodup hu).sublist (sublist_handlesOf u name)

theorem broughtBy_eq {n : Node} (hv : p.units.find? (n.label.importedSource.getD "") = some v) :
    p.broughtBy name n = v.handlesOf name := by
  rw [Program.broughtBy, hv]
  rfl

/-- What each of some things adds is nothing or the same; then the last that is added is the last of
that. -/
theorem getLast?_flatMap_of_eq {α β : Type} {l : List α} {f : α → List β} {b : List β} (hb : b ≠ [])
    (hall : ∀ a ∈ l, f a = [] ∨ f a = b) (hsome : ∃ a ∈ l, f a = b) :
    (l.flatMap f).getLast? = b.getLast? := by
  obtain ⟨last, hlast⟩ := Option.ne_none_iff_exists'.1 (mt List.getLast?_eq_none_iff.1 hb)
  rw [List.getLast?_flatMap, hlast]
  cases hfind : l.reverse.findSome? fun a => (f a).getLast? with
  | none =>
    obtain ⟨a, ha, hfa⟩ := hsome
    have hnone := List.findSome?_eq_none_iff.1 hfind a (List.mem_reverse.2 ha)
    rw [hfa, hlast] at hnone
    cases hnone
  | some found =>
    obtain ⟨a, ha, hfound⟩ := List.exists_of_findSome?_eq_some hfind
    rcases hall a (List.mem_reverse.1 ha) with hfa | hfa
    · rw [hfa] at hfound
      cases hfound
    · exact hfound.symm.trans (hfa ▸ hlast)

/-- What the last node of a unit brings comes last. -/
theorem getLast?_brought {n : Node} (hlast : u.root.children.getLast? = some n)
    (hn : p.broughtBy name n ≠ []) :
    (p.brought u name).getLast? = (p.broughtBy name n).getLast? := by
  obtain ⟨before, hchildren⟩ := List.getLast?_eq_some_iff.1 hlast
  rw [Program.brought, hchildren, List.flatMap_append, List.flatMap_singleton,
    List.getLast?_append_of_ne_nil _ hn]

/-- The first and the last of some different things are the same if there is one only. -/
theorem getLast?_eq_head?_iff {α : Type} {l : List α} (hne : l ≠ []) (hnodup : l.Nodup) :
    l.getLast? = l.head? ↔ l.length = 1 := by
  rw [List.getLast?_eq_getLast_of_ne_nil hne, List.head?_eq_some_head hne, Option.some_inj, eq_comm,
    hnodup.head_eq_getLast_iff, List.length_eq_one_iff]

namespace Gathering.IsSound

variable {sources : Table String String} {exchanges : List Exchange} {g : Gathering}

/-- The nodes of a unit with one import bring the last declaration of that import, unless the unit
without a name has the last word. -/
theorem getLast?_brought_of_not_isOverlaid (h : g.IsSound sources exchanges)
    (hu : (bindAll g).units.find? s = some u) (hv : (bindAll g).units.find? t = some v)
    (honly : u.ImportsOnly t) (hdeclared : v.handlesOf name ≠ [])
    (hplain : ¬ (bindAll g).IsOverlaid u t name) :
    ((bindAll g).brought u name).getLast? = (v.handlesOf name).getLast? := by
  obtain ⟨himports, n, hn, hsource⟩ := h.importedSource_of_importsOnly hu honly
  have hbrings {k : Node} (hk : k.label.importedSource = some t) :
      (bindAll g).broughtBy name k = v.handlesOf name :=
    broughtBy_eq (by simpa [hk] using hv)
  by_cases hunnamed : t = "" ∨ ∀ w, (bindAll g).units.find? "" = some w → w.handlesOf name = []
  · refine getLast?_flatMap_of_eq hdeclared (fun k hk => ?_) ⟨n, hn, hbrings hsource⟩
    rcases himports k hk with hnone | hsome
    · rcases hunnamed with rfl | hnothing
      · exact .inr (broughtBy_eq (by simpa [hnone] using hv))
      · refine .inl ?_
        rw [Program.broughtBy, hnone, Option.getD_none]
        cases hw : (bindAll g).units.find? "" with
        | none => rfl
        | some w => exact hnothing w hw
    · exact .inr (hbrings hsome)
  · obtain ⟨hnamed, hother⟩ := not_or.1 hunnamed
    simp only [not_forall] at hother
    obtain ⟨w, hw, hwdeclares⟩ := hother
    cases hlast : u.root.children.getLast? with
    | none => exact absurd (List.getLast?_eq_none_iff.1 hlast ▸ hn) List.not_mem_nil
    | some k =>
      rcases himports k (List.mem_of_getLast? hlast) with hnone | hsome
      · exact absurd ⟨hnamed, by simp [hlast, hnone], w, hw, hwdeclares⟩ hplain
      · rw [getLast?_brought hlast (hbrings hsome ▸ hdeclared), hbrings hsome]

/-- What the unit without a name declares is nothing that the import declares. -/
theorem getLast?_brought_ne_of_isOverlaid (h : g.IsSound sources exchanges)
    (hu : (bindAll g).units.find? s = some u) (hv : (bindAll g).units.find? t = some v)
    (honly : u.ImportsOnly t) (hover : (bindAll g).IsOverlaid u t name) :
    ((bindAll g).brought u name).getLast? ≠ (v.handlesOf name).head? := by
  obtain ⟨hnamed, hnone, w, hw, hdeclared⟩ := hover
  obtain ⟨-, n, hn, -⟩ := h.importedSource_of_importsOnly hu honly
  cases hlast : u.root.children.getLast? with
  | none => exact absurd (List.getLast?_eq_none_iff.1 hlast ▸ hn) List.not_mem_nil
  | some k =>
    rw [hlast, Option.bind_some] at hnone
    have hbrings : (bindAll g).broughtBy name k = w.handlesOf name :=
      broughtBy_eq (by simpa [hnone] using hw)
    rw [getLast?_brought hlast (hbrings ▸ hdeclared), hbrings,
      List.getLast?_eq_getLast_of_ne_nil hdeclared]
    intro heq
    exact disjoint_handlesOf (declared_bindAll g ▸ h.nodup) (Ne.symm hnamed) hw hv
      (List.getLast_mem hdeclared) (List.mem_of_head? heq.symm)

end Gathering.IsSound

/-- Let a unit import another one and nothing else, and let a name be declared in the imported unit and
not in the importer.  A use at the top level of the imported unit refers to the first declaration of
the name there; one at the top level of the importer refers to the last one, unless the unit without
a name has the last word.  So the two refer to the same declaration just if there is one only, and
the unit without a name leaves it alone.  This holds whatever is compiled and however the questions
are answered. -/
theorem shares_compile {budget : Nat} {input : EngineInput} {exchanges : List Exchange}
    {p : Program} (h : (compile budget input).Ends exchanges p) {s t name : String}
    {u v : CompiledUnit} (hu : p.units.find? s = some u) (hv : p.units.find? t = some v)
    (honly : u.ImportsOnly t) (hdeclared : v.handlesOf name ≠ []) (hnew : u.handlesOf name = []) :
    (∀ m' ∈ v.topLevelUses name, m'.label.references = (v.handlesOf name).head?) ∧
      (¬ p.IsOverlaid u t name → ∀ m ∈ u.topLevelUses name,
        m.label.references = (v.handlesOf name).getLast?) ∧
      ∀ m ∈ u.topLevelUses name, ∀ m' ∈ v.topLevelUses name,
        (m.label.references = m'.label.references ↔
          (v.handlesOf name).length = 1 ∧ ¬ p.IsOverlaid u t name) := by
  obtain ⟨first, g, second, rfl, hgather, hdone⟩ := h.of_andThen
  cases hdone
  have hsound := Gathering.isSound_gather hgather
  have himported {m' : Node} (hm' : m' ∈ v.topLevelUses name) :
      m'.label.references = (v.handlesOf name).head? := by
    rw [hsound.references_topLevel hv hm', List.head?_eq_some_head hdeclared, Option.some_or]
  have himporter {m : Node} (hm : m ∈ u.topLevelUses name) :
      m.label.references = ((bindAll g).brought u name).getLast? := by
    rw [hsound.references_topLevel hu hm, hnew, List.head?_nil, Option.none_or]
  refine ⟨fun _ => himported, fun hplain m hm => ?_, fun m hm m' hm' => ?_⟩
  · rw [himporter hm, hsound.getLast?_brought_of_not_isOverlaid hu hv honly hdeclared hplain]
  · rw [himporter hm, himported hm']
    by_cases hover : (bindAll g).IsOverlaid u t name
    · exact iff_of_false (hsound.getLast?_brought_ne_of_isOverlaid hu hv honly hover)
        fun hboth => hboth.2 hover
    · rw [hsound.getLast?_brought_of_not_isOverlaid hu hv honly hdeclared hover,
        getLast?_eq_head?_iff hdeclared
          (nodup_handlesOf (Gathering.IsSound.declared_bindAll g ▸ hsound.nodup) hv)]
      exact (and_iff_left hover).symm

/-- A name that is declared twice where it comes from. -/
def declaredTwice : EngineInput where
  sources := .ofList [("a", "import \"b\"; n;"), ("b", "var n = 1; var n = 2; n;")]
  remappings := []
  targetVersion := none

/-- The imports of a unit, what it declares under a name, and how often it uses it. -/
structure Tally where
  imports : List String
  handles : List Int
  uses : Nat
  deriving DecidableEq

def tallyOf (name : String) (u : CompiledUnit) : Tally :=
  ⟨u.imports, u.handlesOf name, (u.topLevelUses name).length⟩

theorem shares_declaredTwice : ∃ exchanges p u v,
    (compile 9 declaredTwice).Ends exchanges p ∧ p.units.find? "a" = some u ∧
      p.units.find? "b" = some v ∧ u.ImportsOnly "b" ∧ v.handlesOf "n" = [1, 2] ∧
        u.handlesOf "n" = [] ∧ (u.topLevelUses "n").length = 1 ∧
          (v.topLevelUses "n").length = 1 ∧ ∀ m ∈ u.topLevelUses "n", ∀ m' ∈ v.topLevelUses "n",
              m.label.references ≠ m'.label.references := by
  have hread : ((compile 9 declaredTwice).converse answerTwice).2.map
      (fun p => ((p.units.find? "a").map (tallyOf "n"), (p.units.find? "b").map (tallyOf "n"))) =
        .ok (some ⟨["b"], [], 1⟩, some ⟨[], [1, 2], 1⟩) := by
    decide +kernel
  obtain ⟨exchanges, p, hends, hread⟩ := Compiling.exists_ends_of_map hread
  obtain ⟨hfirst, hsecond⟩ := Prod.mk.inj hread
  obtain ⟨u, hu, hutally⟩ := Option.map_eq_some_iff.1 hfirst
  obtain ⟨v, hv, hvtally⟩ := Option.map_eq_some_iff.1 hsecond
  simp only [tallyOf, Tally.mk.injEq] at hutally hvtally
  obtain ⟨himports, hnew, huses⟩ := hutally
  obtain ⟨-, hdeclared, huses'⟩ := hvtally
  have honly : u.ImportsOnly "b" := by simp [CompiledUnit.ImportsOnly, himports]
  have hshares := shares_compile hends hu hv honly (by simp [hdeclared]) hnew
  refine ⟨exchanges, p, u, v, hends, hu, hv, honly, hdeclared, hnew, huses, huses',
    fun m hm m' hm' heq => ?_⟩
  have hone := ((hshares.2.2 m hm m' hm').1 heq).1
  simp [hdeclared] at hone

end Toy

end LanguageServer
