import LanguageServer.Proofs.Toy.Exactness
import LanguageServer.Proofs.Toy.Mirror

/-!
# When a variable of the wrong type is reported

Variables get their types while the units are bound, one after the other in the order of their
names.  So the first value of a variable is checked against what is known by then: a variable of
another unit has its type if that unit was bound before, and one of the same unit if it stands
before.  Which unit imports which plays no part in this.

## Main definitions

* `Variable.type?` — the type that a variable is declared with.
* `Gathering.bound` — the units of a program with the annotations that its trees leave out.
* `Gathering.HasInitializer` — a variable of one type is the first value of one of a type.
* `Checker.Passes` — checking on the way has nothing to do with a finding.

## Main statements

* `types_bindEach` — what is known of a variable after its unit.
* `Gathering.IsSound.types_beforeItem_iff` — when the type of a variable is known.
* `reports_mismatch_iff` — a first value of the wrong type is reported if its unit has the smaller
  name.
-/

namespace LanguageServer.Toy

/-- The type that a variable is declared with. -/
def Variable.type? (v : Variable) : Option Ty := v.typeName.bind fun name => Ty.ofName? name.text

variable {source : String} {c c' c'' : Checker}

/-! ## Handles of a unit -/

mutual

theorem Expr.declared_toNode (source : String) : (e : Expr) → Node.declared [e.toNode source] = []
  | .number _ => rfl
  | .string _ => rfl
  | .use _ => rfl
  | .call callee arguments span => by
    rw [Node.declared_singleton, Expr.toNode, ← List.singleton_append, Node.declared_append,
      Expr.declared_toNodes source arguments]
    rfl
  | .sum operands span => by
    rw [Node.declared_singleton, Expr.toNode, Expr.declared_toNodes source operands]
    rfl

theorem Expr.declared_toNodes (source : String) : (l : List Expr) →
    Node.declared (Expr.toNodes source l) = []
  | [] => rfl
  | e :: rest => by
    rw [Expr.toNodes, ← List.singleton_append, Node.declared_append, Expr.declared_toNode source e,
      Expr.declared_toNodes source rest, List.append_nil]

end

theorem Expr.declared_toList (source : String) (e : Option Expr) :
    Node.declared (e.map (·.toNode source)).toList = [] := by
  cases e with
  | none => rfl
  | some e => exact e.declared_toNode source

theorem Statement.declared_toNode (source : String) (s : Statement) :
    Node.declared [s.toNode source] = s.handles := by
  rw [Node.declared_singleton]
  cases s with
  | expression value span => exact value.declared_toNode source
  | «variable» v => exact congrArg (v.handle :: ·) (Expr.declared_toList source v.value)
  | assignment target value span =>
    rw [Statement.toNode, ← List.singleton_append, Node.declared_append, value.declared_toNode]
    rfl
  | giveBack value span => exact Expr.declared_toList source value

/-- The handles of parts are those that they declare one by one. -/
theorem declared_map {α : Type} {node : α → Node} (handles : α → List Int)
    (h : ∀ a, Node.declared [node a] = handles a) (l : List α) :
    Node.declared (l.map node) = l.flatMap handles := by
  induction l with
  | nil => rfl
  | cons a rest ih =>
    rw [List.map_cons, ← List.singleton_append, Node.declared_append, h, ih, List.flatMap_cons]

theorem Item.declared_toNode (source : String) (i : Item) :
    Node.declared [i.toNode source] = i.handles := by
  cases i with
  | importing path span target => rfl
  | statement s => exact s.declared_toNode source
  | function f =>
    rw [Node.declared_singleton, Item.toNode, Node.declared_append,
      declared_map (fun p : Parameter => [p.handle]) (fun p => rfl),
      declared_map _ (Statement.declared_toNode source), ← List.map_eq_flatMap]
    rfl

theorem SourceFile.declared_toUnit (u : SourceFile) :
    Node.declared [u.toUnit.root] = u.handles := by
  rw [Node.declared_singleton]
  exact declared_map _ (Item.declared_toNode u.source) u.items

/-! ## Known types -/

namespace Checker

theorem types_checkAssignable (c : Checker) (expected : Option Ty) (value : Expr) :
    (c.checkAssignable source expected value).types = c.types := by
  unfold checkAssignable
  split
  · split <;> rfl
  · rfl

theorem types_addAll (c : Checker) (scope : Scope) (outer : List Scope) (l : List Declaration) :
    (c.addAll scope outer l).1.types = c.types := by
  induction l generalizing c scope with
  | nil => rfl
  | cons d rest ih =>
    rw [addAll, ih, add]
    split
    · rfl
    · cases findInnermost d.name outer <;> rfl

/-- A variable that is declared with a type has this type from its declaration on. -/
theorem types_bindItem {imported globals : Scope} {z : Variable} {t : Ty} (hz : z.type? = some t) :
    (c.bindItem source imported globals (.statement (.variable z))).1.types.find? z.handle =
      some t := by
  obtain ⟨name, hname, ht⟩ := Option.bind_eq_some_iff.1 hz
  simp only [bindItem, bindStatement, addLocal, checkVariable, hname, ht]
  cases hvalue : z.value with
  | none => simp [bindExpr?]
  | some e => simp [bindExpr?, types_checkAssignable]

/-- Items that do not declare a handle say nothing of its type. -/
theorem types_bindItems_of_notMem {imported globals : Scope} (c : Checker) {l : List Item}
    {handle : Int} (h : handle ∉ l.flatMap Item.handles) :
    (c.bindItems source imported globals l).1.types.find? handle = c.types.find? handle := by
  have hgrows : Grows source (· ∈ l.flatMap Item.handles) c
      (c.bindItems source imported globals l).1 :=
    grows_bindItems imported globals c fun _ => id
  exact hgrows.types _ h

theorem types_bindItems {imported globals : Scope} (c : Checker) {l : List Item} {z : Variable}
    {t : Ty} (hz : z.type? = some t) (hmem : .statement (.variable z) ∈ l)
    (hnodup : (l.flatMap Item.handles).Nodup) :
    (c.bindItems source imported globals l).1.types.find? z.handle = some t := by
  induction l generalizing c with
  | nil => cases hmem
  | cons i rest ih =>
    rw [List.flatMap_cons, List.nodup_append] at hnodup
    obtain ⟨-, hrest, hapart⟩ := hnodup
    rcases List.mem_cons.1 hmem with rfl | hmem
    · exact (types_bindItems_of_notMem _ fun hlater =>
        hapart _ (List.mem_singleton_self _) _ hlater rfl).trans (types_bindItem hz)
    · exact ih _ hmem hrest

end Checker

theorem types_bind_of_notMem (units : Table String SourceFile) (u : SourceFile) (c : Checker)
    {handle : Int} (h : handle ∉ u.handles) :
    (u.bind units c).1.types.find? handle = c.types.find? handle :=
  (grows_bind units u c).types handle h

/-- After its unit, a variable that is declared with a type has it. -/
theorem types_bind (units : Table String SourceFile) {u : SourceFile} (c : Checker) {z : Variable}
    {t : Ty} (hz : z.type? = some t) (hmem : .statement (.variable z) ∈ u.items)
    (hnodup : u.handles.Nodup) : (u.bind units c).1.types.find? z.handle = some t :=
  Checker.types_bindItems _ hz hmem hnodup

/-- Units that do not declare a handle say nothing of its type. -/
theorem types_bindEach_of_notMem {units : Table String SourceFile} (c : Checker)
    {names : List String} {handle : Int}
    (h : ∀ n ∈ names, ∀ u, units.find? n = some u → handle ∉ u.handles) :
    (bindEach units c names).1.types.find? handle = c.types.find? handle := by
  induction names generalizing c with
  | nil => rfl
  | cons n rest ih =>
    have hrest := fun k hk => h k (List.mem_cons_of_mem n hk)
    cases hu : units.find? n with
    | none => rw [bindEach_of_none hu, ih c hrest]
    | some u =>
      rw [bindEach_of_some hu]
      exact (ih _ hrest).trans (types_bind_of_notMem units u c (h n List.mem_cons_self u hu))

/-- After some units that no other declares the handles of, what they declare with a type has it. -/
theorem types_bindEach {units : Table String SourceFile} (c : Checker) {names : List String}
    {n : String} {u : SourceFile} {z : Variable} {t : Ty} (hz : z.type? = some t)
    (hnames : names.Nodup) (hn : n ∈ names) (hu : units.find? n = some u)
    (hmem : .statement (.variable z) ∈ u.items) (hnodup : u.handles.Nodup)
    (hapart : ∀ k, k ≠ n → ∀ v, units.find? k = some v → z.handle ∉ v.handles) :
    (bindEach units c names).1.types.find? z.handle = some t := by
  obtain ⟨before, behind, rfl⟩ := List.append_of_mem hn
  have hother : ∀ k ∈ behind, k ≠ n := by
    rintro k hk rfl
    rw [List.nodup_append] at hnames
    exact (List.nodup_cons.1 hnames.2.1).1 hk
  rw [bindEach_append, bindEach_of_some hu]
  exact (types_bindEach_of_notMem _ fun k hk => hapart k (hother k hk)).trans
    (types_bind units _ hz hmem hnodup)

/-! ## Findings on the way -/

namespace Checker

/-- What is checked on the way has nothing to do with a finding. -/
def Passes (f : Finding) (c c' : Checker) : Prop := f ∈ c'.findings ↔ f ∈ c.findings

variable {f : Finding} {place : SourceLocation} {scopes : Scopes} {scope : Scope}

theorem Passes.refl (c : Checker) : Passes f c c := Iff.rfl

theorem Passes.trans (h : Passes f c c') (h' : Passes f c' c'') : Passes f c c'' := Iff.trans h' h

theorem Passes.reportAll (c : Checker) {l : List Finding} (h : f ∉ l) :
    Passes f c (c.reportAll l) := by
  simp [Passes, Checker.reportAll, h]

theorem Passes.report (c : Checker) {g : Finding} (h : f ≠ g) : Passes f c (c.report g) :=
  reportAll c (List.mem_singleton.not.2 h)

/-- Findings of other sources leave one of a source alone. -/
theorem Grows.passes {own : Int → Prop} (h : Grows source own c c')
    (hplace : f.location = some place) (hother : place.source ≠ source) : Passes f c c' := by
  obtain ⟨found, hfound, hlies⟩ := h.findings
  have hnot : f ∉ found := fun hmem => hother (by simpa [Finding.liesIn, hplace] using hlies f hmem)
  simp [Passes, hfound, hnot]

section

variable (hcode : f.code = some Code.typeMismatch.number)

include hcode

theorem ne_of_code {g : Finding} (code : Code) (hg : g.code = some code.number)
    (hother : code.number ≠ Code.typeMismatch.number) : f ≠ g := by
  rintro rfl
  exact hother (Option.some.inj (hg.symm.trans hcode))

theorem passes_add (c : Checker) (d : Declaration) (scope : Scope) (outer : List Scope) :
    Passes f c (c.add d scope outer).1 := by
  unfold add
  split
  · exact .report c (ne_of_code hcode .redeclared rfl (by decide))
  · cases findInnermost d.name outer with
    | none => exact .refl c
    | some hidden => exact .report c (ne_of_code hcode .shadowing rfl (by decide))

theorem passes_addAll (c : Checker) (scope : Scope) (outer : List Scope) (l : List Declaration) :
    Passes f c (c.addAll scope outer l).1 := by
  induction l generalizing c scope with
  | nil => exact .refl c
  | cons d rest ih => exact (passes_add hcode c d scope outer).trans (ih _ _)

theorem passes_addLocal (scopes : Scopes) (c : Checker) (v : Variable) :
    Passes f c (c.addLocal source scopes v).1 := by
  unfold addLocal
  split
  · exact .refl c
  · exact passes_add hcode c _ _ _

theorem passes_bindExpr (scopes : Scopes) (c : Checker) (e : Expr) :
    Passes f c (c.bindExpr source scopes e).1 := by
  refine .reportAll c fun hmem => ?_
  obtain ⟨u, -, hu⟩ := List.mem_map.1 hmem
  exact ne_of_code hcode .undeclared rfl (by decide) hu.symm

theorem passes_bindExpr? (scopes : Scopes) (c : Checker) (e : Option Expr) :
    Passes f c (c.bindExpr? source scopes e).1 := by
  cases e with
  | none => exact .refl c
  | some e => exact passes_bindExpr hcode scopes c e

variable (hplace : f.location = some place)

include hplace

omit hcode in
theorem passes_checkAssignable (c : Checker) (expected : Option Ty) {value : Expr}
    (hvalue : value.span.within source ≠ place) :
    Passes f c (c.checkAssignable source expected value) := by
  unfold checkAssignable
  split
  · split
    · exact .refl c
    · refine .report c ?_
      rintro rfl
      exact hvalue (Option.some.inj hplace)
  · exact .refl c

theorem passes_checkVariable (c : Checker) {v : Variable}
    (hvalue : ∀ value ∈ v.value, value.span.within source ≠ place) :
    Passes f c (c.checkVariable source v) := by
  unfold checkVariable
  split
  · split <;> exact .refl _
  · split
    · exact .report c (ne_of_code hcode .undeclared rfl (by decide))
    · simp only
      split
      · exact .refl _
      · next value hsome =>
        exact .trans (Iff.rfl) (passes_checkAssignable hplace _ _ (hvalue value hsome))

/-- A statement without a node in a place does not report a value there. -/
theorem passes_bindStatement (scopes : Scopes) (c : Checker) {s : Statement}
    (hs : ∀ m ∈ (s.toNode source).preorder, m.location ≠ place) :
    Passes f c (c.bindStatement source scopes s).1 := by
  have hchild (value : Expr) (hvalue : value.toNode source ∈ (s.toNode source).children) :
      value.span.within source ≠ place :=
    value.location_toNode ▸ hs _ (mem_preorder.2 (.inr ⟨_, hvalue, mem_preorder.2 (.inl rfl)⟩))
  cases s with
  | expression value span => exact passes_bindExpr hcode scopes c value
  | giveBack value span => exact passes_bindExpr? hcode scopes c value
  | assignment target value span =>
    have hvalue := hchild value (List.mem_cons_of_mem _ (List.mem_singleton_self _))
    refine ((passes_bindExpr hcode scopes c (.use target)).trans
      (passes_bindExpr hcode scopes _ value)).trans (passes_checkAssignable hplace _ _ ?_)
    rw [Expr.span_mapUses (f := scopes.resolve) fun _ => rfl]
    exact hvalue
  | «variable» v =>
    refine ((passes_bindExpr? hcode scopes c v.value).trans
      (passes_addLocal hcode scopes _ _)).trans (passes_checkVariable hcode hplace _ ?_)
    intro bound hbound
    cases hv : v.value with
    | none => simp [hv] at hbound
    | some value =>
      simp only [hv, Option.mem_def, Option.some.injEq] at hbound
      rw [← hbound, span_bindExpr]
      refine hchild value ?_
      rw [Statement.toNode, hv]
      exact List.mem_singleton_self _

theorem passes_bindStatements (scopes : Scopes) (c : Checker) {l : List Statement}
    (hl : ∀ s ∈ l, ∀ m ∈ (s.toNode source).preorder, m.location ≠ place) :
    Passes f c (c.bindStatements source scopes l).1 := by
  induction l generalizing scopes c with
  | nil => exact .refl c
  | cons s rest ih =>
    exact (passes_bindStatement hcode hplace scopes c (hl s List.mem_cons_self)).trans
      (ih _ _ fun t ht => hl t (List.mem_cons_of_mem _ ht))

theorem passes_bindItem (imported globals : Scope) (c : Checker) {i : Item}
    (hi : ∀ m ∈ (i.toNode source).preorder, m.location ≠ place) :
    Passes f c (c.bindItem source imported globals i).1 := by
  cases i with
  | importing path span target => exact .refl c
  | statement s => exact passes_bindStatement hcode hplace _ c hi
  | function g =>
    refine (passes_addAll hcode c _ _ _).trans
      (passes_bindStatements hcode hplace _ _ fun s hs m hm => hi m ?_)
    exact mem_preorder.2 (.inr ⟨_, List.mem_append_right _ (List.mem_map_of_mem hs), hm⟩)

/-- Items without a node in a place do not report a value there. -/
theorem passes_bindItems (imported globals : Scope) (c : Checker) {l : List Item}
    (hl : ∀ i ∈ l, ∀ m ∈ (i.toNode source).preorder, m.location ≠ place) :
    Passes f c (c.bindItems source imported globals l).1 := by
  induction l generalizing c with
  | nil => exact .refl c
  | cons i rest ih =>
    exact (passes_bindItem hcode hplace imported globals c (hl i List.mem_cons_self)).trans
      (ih _ fun j hj => hl j (List.mem_cons_of_mem _ hj))

end

/-- A variable with another one as its first value: it is reported if that one is known to have
another type. -/
theorem findings_bindItem (imported globals : Scope) (c : Checker) {y : Variable} {x : Use} {t : Ty}
    {handle : Int} (hy : y.type? = some t) (hvalue : y.value = some (.use x))
    (htarget : ((⟨imported, globals, none⟩ : Scopes).resolve x).target = some handle)
    (hother : y.handle ≠ handle) :
    (c.bindItem source imported globals (.statement (.variable y))).1.findings =
      c.findings ++ ((c.types.find? handle).filter (· ≠ t)).toList.map fun actual =>
        typeMismatch source actual t (.use ((⟨imported, globals, none⟩ : Scopes).resolve x)) := by
  obtain ⟨name, hname, ht⟩ := Option.bind_eq_some_iff.1 hy
  simp only [bindItem, bindStatement, addLocal, checkVariable, hname, ht, hvalue, bindExpr?, bindExpr,
    Expr.mapUses, Expr.uses, checkAssignable, reportAll, Types.ofExpr?, Types.ofUse?, htarget,
    Option.bind_some, Table.find?_insert, if_neg hother]
  cases hknown : c.types.find? handle with
  | none => simp [htarget]
  | some actual => by_cases heq : actual = t <;> simp [htarget, heq, report, Option.filter_some]

/-! ## Bound items -/

theorem bindItems_append (imported globals : Scope) (c : Checker) (l l' : List Item) :
    c.bindItems source imported globals (l ++ l') =
      (((c.bindItems source imported globals l).1.bindItems source imported globals l').1,
        (c.bindItems source imported globals l).2 ++
          ((c.bindItems source imported globals l).1.bindItems source imported globals l').2) := by
  induction l generalizing c with
  | nil => rfl
  | cons i rest ih => simp only [List.cons_append, bindItems, ih]

/-- A bound item comes from one in its place. -/
theorem exists_of_bindItems_eq {imported globals : Scope} {c : Checker} {l before behind : List Item}
    {i : Item} (h : (c.bindItems source imported globals l).2 = before ++ i :: behind) :
    ∃ before' i' behind', l = before' ++ i' :: behind' ∧
      before = (c.bindItems source imported globals before').2 ∧
        i = ((c.bindItems source imported globals before').1.bindItem source imported globals i').2 ∧
          behind = (((c.bindItems source imported globals before').1.bindItem source imported globals
            i').1.bindItems source imported globals behind').2 := by
  induction l generalizing c before with
  | nil => simp [bindItems] at h
  | cons j rest ih =>
    simp only [bindItems] at h
    cases before with
    | nil =>
      obtain ⟨rfl, rfl⟩ := List.cons.inj h
      exact ⟨[], j, rest, rfl, rfl, rfl, rfl⟩
    | cons k before =>
      obtain ⟨rfl, hrest⟩ := List.cons.inj h
      obtain ⟨before', i', behind', rfl, rfl, rfl, rfl⟩ := ih hrest
      exact ⟨j :: before', i', behind', rfl, rfl, rfl, rfl⟩

theorem exists_use_of_mapUses {resolve : Use → Use} {e : Option Expr} {x : Use}
    (h : e.map (·.mapUses resolve) = some (.use x)) :
    ∃ x', e = some (.use x') ∧ x = resolve x' := by
  obtain ⟨e, rfl, he⟩ := Option.map_eq_some_iff.1 h
  cases e with
  | use x' => exact ⟨x', rfl, (Expr.use.inj he).symm⟩
  | _ => cases he

/-- A bound variable comes from one with the same name, handle and type. -/
theorem exists_of_bindItem_eq {imported globals : Scope} {i : Item} {v : Variable}
    (h : (c.bindItem source imported globals i).2 = .statement (.variable v)) :
    ∃ v' : Variable, i = .statement (.variable v') ∧ v.handle = v'.handle ∧ v.type? = v'.type? ∧
      v.value = v'.value.map (·.mapUses (⟨imported, globals, none⟩ : Scopes).resolve) := by
  cases i with
  | importing path span target => cases h
  | function f => cases h
  | statement s =>
    cases s with
    | «variable» v' =>
      obtain rfl : _ = v := Statement.variable.inj (Item.statement.inj h)
      refine ⟨v', rfl, rfl, rfl, ?_⟩
      cases v'.value <;> rfl
    | _ => cases h

/-- Binding leaves the handles of items alone. -/
theorem handles_bindItems (source : String) (imported globals : Scope) (c : Checker)
    (l : List Item) :
    (c.bindItems source imported globals l).2.flatMap Item.handles = l.flatMap Item.handles := by
  have hdeclared (l : List Item) : Node.declared (l.map fun i => (i.toNode source).bare) =
      l.flatMap Item.handles := by
    rw [← declared_map _ (Item.declared_toNode source) l,
      ← Node.declared_bareAll (l.map fun i => i.toNode source), Node.bareAll_eq_map, List.map_map]
    rfl
  rw [← hdeclared, ← hdeclared l, bare_bindItems]

theorem exists_of_mem_bindItems {imported globals : Scope} {l : List Item} {v : Variable}
    (h : .statement (.variable v) ∈ (c.bindItems source imported globals l).2) :
    ∃ v' : Variable, .statement (.variable v') ∈ l ∧ v.handle = v'.handle ∧ v.type? = v'.type? := by
  obtain ⟨before, behind, hsplit⟩ := List.append_of_mem h
  obtain ⟨before', i', behind', rfl, -, hi, -⟩ := exists_of_bindItems_eq hsplit
  obtain ⟨v', rfl, hhandle, htype, -⟩ := exists_of_bindItem_eq hi.symm
  exact ⟨v', by simp, hhandle, htype⟩

end Checker

theorem typeMismatch_injective {actual actual' expected : Ty} {e : Expr}
    (h : typeMismatch source actual expected e = typeMismatch source actual' expected e) :
    actual = actual' := by
  have hmessage := congrArg Finding.message h
  cases actual <;> cases actual' <;> cases expected <;>
    simp [typeMismatch, Ty.name] at hmessage ⊢

theorem typeMismatch_mem_map_iff {known : Option Ty} {actual expected : Ty} {e : Expr}
    (hne : actual ≠ expected) :
    typeMismatch source actual expected e ∈ ((known.filter (· ≠ expected)).toList.map fun actual =>
      typeMismatch source actual expected e) ↔ known = some actual := by
  rw [List.mem_map]
  constructor
  · rintro ⟨other, hother, heq⟩
    obtain rfl := typeMismatch_injective heq
    exact (Option.filter_eq_some_iff.1 (Option.mem_toList.1 hother)).1
  · rintro rfl
    exact ⟨actual, by simp [Option.filter_some, hne], rfl⟩

/-! ## Places apart -/

/-- Nodes in two children of a root do not stand in one place. -/
theorem location_ne_of_apart {root n k m m' : Node} {length : Nat} {before behind : List Node}
    (h : ∀ k ∈ root.preorder, k.IsLaidOut source length)
    (hchildren : root.children = before ++ n :: behind) (hm : m ∈ n.preorder)
    (hk : k ∈ before ∨ k ∈ behind) (hm' : m' ∈ k.preorder) : m'.location ≠ m.location := by
  have hself := h root (mem_preorder.2 (.inl rfl))
  have hinside {j i : Node} (hj : j ∈ root.children) (hi : i ∈ j.preorder) : j.Encloses i :=
    encloses_of_mem j (hself.filled j hj) (fun i hi => h i (mem_preorder.2 (.inr ⟨j, hj, hi⟩))) i hi
  have hown := hinside (by simp [hchildren]) hm
  have hother := hinside (by rcases hk with hk | hk <;> simp [hchildren, hk]) hm'
  have hapart := hself.apart
  rw [hchildren, List.pairwise_append] at hapart
  obtain ⟨-, hrest, hfirst⟩ := hapart
  have := hown.start
  have := hown.filled
  have := hown.stop
  have := hother.start
  have := hother.filled
  have := hother.stop
  intro heq
  have := congrArg SourceLocation.start heq
  rcases hk with hk | hk
  · have := hfirst k hk n List.mem_cons_self
    omega
  · have := (List.pairwise_cons.1 hrest).1 k hk
    omega

/-- A bound unit was bound behind those that stand before it. -/
theorem exists_of_findIn_bindEach {units : Table String SourceFile} {c : Checker}
    {names : List String} {n : String} {u : SourceFile}
    (h : Table.findIn n (bindEach units c names).2 = some u) :
    ∃ before behind u', names = before ++ n :: behind ∧ units.find? n = some u' ∧
      u = (u'.bind units (bindEach units c before).1).2 := by
  induction names generalizing c with
  | nil => cases h
  | cons name rest ih =>
    cases hu : units.find? name with
    | none =>
      obtain ⟨before, behind, u', rfl, hfind, rfl⟩ := ih (bindEach_of_none hu c rest ▸ h)
      exact ⟨name :: before, behind, u', rfl, hfind, by rw [bindEach_of_none hu]⟩
    | some v =>
      rw [bindEach_of_some hu, Table.findIn] at h
      split at h
      · next heq =>
        subst heq
        exact ⟨[], rest, v, rfl, hu, (Option.some.inj h).symm⟩
      · obtain ⟨before, behind, u', rfl, hfind, rfl⟩ := ih h
        exact ⟨name :: before, behind, u', rfl, hfind, by rw [bindEach_of_some hu]⟩

/-- Binding units leaves alone what is found in another source. -/
theorem passes_bindEach {units : Table String SourceFile} (c : Checker) {names : List String}
    {f : Finding} {place : SourceLocation} (hplace : f.location = some place)
    (h : ∀ n ∈ names, ∀ u, units.find? n = some u → place.source ≠ u.source) :
    Checker.Passes f c (bindEach units c names).1 := by
  induction names generalizing c with
  | nil => exact .refl c
  | cons n rest ih =>
    have hrest := fun k hk => h k (List.mem_cons_of_mem n hk)
    cases hu : units.find? n with
    | none => exact bindEach_of_none hu c rest ▸ ih c hrest
    | some u =>
      rw [bindEach_of_some hu]
      exact ((grows_bind units u c).passes hplace (h n List.mem_cons_self u hu)).trans (ih _ hrest)

namespace Gathering

/-! ## First values -/

/-- What is known before a unit, behind those with certain names. -/
def beforeUnit (g : Gathering) (earlier : List String) : Checker :=
  (bindEach g.units ⟨.empty, g.draft.findings⟩ earlier).1

/-- What is known before the items of a unit, with the scope of what the unit declares. -/
def beforeItems (g : Gathering) (earlier : List String) (u : SourceFile) : Checker × Scope :=
  (g.beforeUnit earlier).addAll .empty [] u.declarations

/-- What is known before an item of a unit, behind some other items. -/
def beforeItem (g : Gathering) (earlier : List String) (u : SourceFile) (before : List Item) :
    Checker :=
  ((g.beforeItems earlier u).1.bindItems u.source (importedScope g.units u)
    (g.beforeItems earlier u).2 before).1

/-- The scopes at the top level of a unit. -/
def scopesIn (g : Gathering) (earlier : List String) (u : SourceFile) : Scopes :=
  ⟨importedScope g.units u, (g.beforeItems earlier u).2, none⟩

/-- In a unit of a program, behind some items, a variable has another variable for its first value.
Both are declared with types. -/
structure HasInitializer (g : Gathering) (importer imported : String) (before : List Item)
    (y z : Variable) (x : Use) (expected actual : Ty) : Prop where
  importer : ∃ u behind, g.bound.find? importer = some u ∧
    u.items = before ++ .statement (.variable y) :: behind
  imported : ∃ v, g.bound.find? imported = some v ∧ .statement (.variable z) ∈ v.items
  value : y.value = some (.use x)
  refers : x.target = some z.handle
  expected : y.type? = some expected
  actual : z.type? = some actual

namespace IsSound

variable {sources : Table String String} {exchanges : List Exchange} {g : Gathering}

theorem nodup_handles (h : g.IsSound sources exchanges) :
    (g.units.values.flatMap SourceFile.handles).Nodup := by
  have hnodup := h.nodup
  simp only [declared, SourceFile.declared_toUnit] at hnodup
  exact hnodup

/-- Syntax errors are no type mismatches. -/
theorem notMem_findings_of_code (h : g.IsSound sources exchanges) {f : Finding}
    (hcode : f.code = some Code.typeMismatch.number) : f ∉ g.draft.findings := by
  intro hmem
  obtain ⟨source, -, e, rfl, -⟩ := h.found f hmem
  simp [SyntaxError.finding, Code.number] at hcode

/-- Units under other names have other sources. -/
theorem ne_source_of_notMem (h : g.IsSound sources exchanges) {source : String} {names : List String}
    (hnot : source ∉ names) (n : String) (hn : n ∈ names) (v : SourceFile)
    (hv : g.units.find? n = some v) : source ≠ v.source := by
  intro heq
  obtain rfl : source = n := heq.trans (h.unit n v hv).1
  exact hnot hn

section

variable {u : SourceFile} {earlier later : List String} {before behind : List Item} {f : Finding}
  {place : SourceLocation}

/-- No item beside a variable has a node in the place of the first value of the variable. -/
theorem location_ne_of_items (h : g.IsSound sources exchanges)
    (hu : g.units.find? u.source = some u) {y : Variable} {x : Use}
    (hitems : u.items = before ++ .statement (.variable y) :: behind)
    (hvalue : y.value = some (.use x)) (i : Item) (hi : i ∈ before ∨ i ∈ behind) (m : Node)
    (hm : m ∈ (i.toNode u.source).preorder) : m.location ≠ x.name.span.within u.source := by
  obtain ⟨-, text, -, hsound⟩ := h.unit _ u hu
  have hlaid := fun k hk => (hsound.tree k hk).laidOut
  have hchildren : u.toUnit.root.children = before.map (·.toNode u.source) ++
      (Item.statement (.variable y)).toNode u.source :: behind.map (·.toNode u.source) := by
    simp [SourceFile.toUnit, hitems]
  have hinside : (x.toNode u.source .read) ∈
      ((Item.statement (.variable y)).toNode u.source).preorder := by
    refine mem_preorder.2 (.inr ⟨_, ?_, mem_preorder.2 (.inl rfl)⟩)
    simp [Item.toNode, Statement.toNode, hvalue, Expr.toNode]
  have hmem (l : List Item) (hl : i ∈ l) : i.toNode u.source ∈ l.map (·.toNode u.source) :=
    List.mem_map_of_mem hl
  exact location_ne_of_apart hlaid hchildren hinside (hi.imp (hmem _) (hmem _)) hm

/-- Up to an item, no value in a place is checked that lies in none of the items before. -/
theorem passes_beforeItem (h : g.IsSound sources exchanges)
    (hcode : f.code = some Code.typeMismatch.number) (hplace : f.location = some place)
    (hearlier : place.source ∉ earlier)
    (hbefore : ∀ i ∈ before, ∀ m ∈ (i.toNode u.source).preorder, m.location ≠ place) :
    Checker.Passes f ⟨.empty, g.draft.findings⟩ (g.beforeItem earlier u before) := by
  have hunits : Checker.Passes f ⟨.empty, g.draft.findings⟩ (g.beforeUnit earlier) :=
    passes_bindEach _ hplace (h.ne_source_of_notMem hearlier)
  have hscope : Checker.Passes f (g.beforeUnit earlier) (g.beforeItems earlier u).1 :=
    Checker.passes_addAll hcode ..
  have hitems : Checker.Passes f (g.beforeItems earlier u).1 (g.beforeItem earlier u before) :=
    Checker.passes_bindItems hcode hplace _ _ _ hbefore
  exact (hunits.trans hscope).trans hitems

/-- Behind an item, no value in a place is checked that lies in none of the items behind. -/
theorem passes_boundEach (h : g.IsSound sources exchanges)
    (hcode : f.code = some Code.typeMismatch.number) (hplace : f.location = some place)
    (hnames : Text.sorted g.units.keys = earlier ++ u.source :: later)
    (hu : g.units.find? u.source = some u) {i : Item} (hitems : u.items = before ++ i :: behind)
    (hlater : place.source ∉ later)
    (hbehind : ∀ i ∈ behind, ∀ m ∈ (i.toNode u.source).preorder, m.location ≠ place) :
    Checker.Passes f ((g.beforeItem earlier u before).bindItem u.source (importedScope g.units u)
      (g.beforeItems earlier u).2 i).1 g.boundEach.1 := by
  have hbound : (u.bind g.units (g.beforeUnit earlier)).1 =
      (((g.beforeItem earlier u before).bindItem u.source (importedScope g.units u)
        (g.beforeItems earlier u).2 i).1.bindItems u.source (importedScope g.units u)
          (g.beforeItems earlier u).2 behind).1 := by
    unfold SourceFile.bind
    simp only [hitems, Checker.bindItems_append]
    rfl
  rw [boundEach, hnames, bindEach_append, bindEach_of_some hu]
  refine .trans ?_ (passes_bindEach _ hplace (h.ne_source_of_notMem hlater))
  change Checker.Passes f _ (u.bind g.units (g.beforeUnit earlier)).1
  rw [hbound]
  exact Checker.passes_bindItems hcode hplace _ _ _ hbehind

/-- The wrong first value of a variable is reported if its type is known before. -/
theorem typeMismatch_mem_iff (h : g.IsSound sources exchanges) {y : Variable} {x x' : Use}
    {t t' : Ty} {handle : Int}
    (hnames : Text.sorted g.units.keys = earlier ++ u.source :: later)
    (hu : g.units.find? u.source = some u)
    (hitems : u.items = before ++ .statement (.variable y) :: behind) (hy : y.type? = some t)
    (hvalue : y.value = some (.use x)) (hx : x' = (g.scopesIn earlier u).resolve x)
    (htarget : x'.target = some handle) (hother : y.handle ≠ handle) (hne : t' ≠ t) :
    typeMismatch u.source t' t (.use x') ∈ (bindAll g).findings ↔
      (g.beforeItem earlier u before).types.find? handle = some t' := by
  subst hx
  generalize hf : typeMismatch u.source t' t (.use ((g.scopesIn earlier u).resolve x)) = f
  have hcode : f.code = some Code.typeMismatch.number := hf ▸ rfl
  have hplace : f.location = some (x.name.span.within u.source) := hf ▸ rfl
  have hapart := h.location_ne_of_items hu hitems hvalue
  have hsorted := hnames ▸ (Text.sorted_perm _).nodup_iff.2 h.keys
  obtain ⟨-, hrest, hearlier⟩ := List.nodup_append.1 hsorted
  have hbefore := h.passes_beforeItem hcode hplace
    (fun hmem => hearlier _ hmem _ List.mem_cons_self rfl) fun i hi => hapart i (.inl hi)
  have hbehind := h.passes_boundEach hcode hplace hnames hu hitems (List.nodup_cons.1 hrest).1
    fun i hi => hapart i (.inr hi)
  have hnew : f ∉ (g.beforeItem earlier u before).findings :=
    fun hmem => h.notMem_findings_of_code hcode (hbefore.1 hmem)
  subst hf
  rw [findings_bindAll h.keys]
  refine Iff.trans hbehind ?_
  rw [Checker.findings_bindItem _ _ _ hy hvalue htarget hother, List.mem_append, or_iff_right hnew]
  exact typeMismatch_mem_map_iff hne

end

theorem handle_mem {u : SourceFile} {z : Variable} (h : .statement (.variable z) ∈ u.items) :
    z.handle ∈ u.handles := List.mem_flatMap.2 ⟨_, h, List.mem_singleton_self _⟩

/-- Before an item, a handle that no unit or item before declares has no type. -/
theorem types_beforeItem_eq_none {earlier : List String} {u : SourceFile} {before : List Item}
    {handle : Int} (hearlier : ∀ n ∈ earlier, ∀ w, g.units.find? n = some w → handle ∉ w.handles)
    (hbefore : handle ∉ before.flatMap Item.handles) :
    (g.beforeItem earlier u before).types.find? handle = none := by
  rw [beforeItem, Checker.types_bindItems_of_notMem _ hbefore, beforeItems, Checker.types_addAll,
    beforeUnit, types_bindEach_of_notMem _ hearlier]
  rfl

/-- Before a variable, the type of another one is known if the unit of that one comes before, or is
the same and has it before. -/
theorem types_beforeItem_iff (h : g.IsSound sources exchanges) {earlier later : List String}
    {u v : SourceFile} {before behind : List Item} {i : Item} {z : Variable} {t : Ty}
    (hnames : Text.sorted g.units.keys = earlier ++ u.source :: later)
    (hu : g.units.find? u.source = some u) (hitems : u.items = before ++ i :: behind)
    (hv : g.units.find? v.source = some v) (hmem : .statement (.variable z) ∈ v.items)
    (hz : z.type? = some t) :
    (g.beforeItem earlier u before).types.find? z.handle = some t ↔
      v.source < u.source ∨ v.source = u.source ∧ z.handle ∈ before.flatMap Item.handles := by
  have hapart (n : String) (hn : n ≠ v.source) (w : SourceFile) (hw : g.units.find? n = some w) :
      z.handle ∉ w.handles := fun hhandle =>
    Table.disjoint_of_nodup h.nodup_handles hn hw hv hhandle (handle_mem hmem)
  have hbefore (hne : u.source ≠ v.source) : z.handle ∉ before.flatMap Item.handles := fun hhandle =>
    hapart _ hne u hu (by rw [SourceFile.handles, hitems, List.flatMap_append]; simp [hhandle])
  have hnodup := hnames ▸ (Text.sorted_perm _).nodup_iff.2 h.keys
  have hsorted := hnames ▸ Text.pairwise_sorted g.units.keys
  have hlisted : v.source ∈ earlier ++ u.source :: later := by
    rw [← hnames, Text.mem_sorted, ← Table.contains_iff_mem_keys, Table.contains, hv]
    rfl
  rw [List.nodup_append] at hnodup
  rw [List.pairwise_append] at hsorted
  rcases List.mem_append.1 hlisted with hfirst | hrest
  · have hne : v.source ≠ u.source := hnodup.2.2 _ hfirst _ List.mem_cons_self
    have hle := hsorted.2.2 _ hfirst _ List.mem_cons_self
    refine iff_of_true ?_ (.inl (lt_of_le_of_ne hle hne))
    rw [beforeItem, Checker.types_bindItems_of_notMem _ (hbefore hne.symm), beforeItems,
      Checker.types_addAll]
    exact types_bindEach _ hz hnodup.1 hfirst hv hmem (Table.nodup_of_nodup h.nodup_handles hv) hapart
  have hnone (hnotmem : z.handle ∉ before.flatMap Item.handles) (hnew : v.source ∉ earlier) :
      (g.beforeItem earlier u before).types.find? z.handle = none :=
    types_beforeItem_eq_none (fun n hn => hapart n fun heq => hnew (heq ▸ hn)) hnotmem
  have hnew : v.source ∉ earlier := fun hmem => hnodup.2.2 _ hmem _ hrest rfl
  rcases List.mem_cons.1 hrest with heq | hlater
  · obtain rfl : v = u := Option.some.inj (hv.symm.trans (heq ▸ hu))
    have hhandles := Table.nodup_of_nodup h.nodup_handles hv
    rw [SourceFile.handles, hitems, List.flatMap_append, List.nodup_append] at hhandles
    by_cases hfirst : z.handle ∈ before.flatMap Item.handles
    · have hmem : .statement (.variable z) ∈ before := by
        refine (List.mem_append.1 (hitems ▸ hmem)).resolve_right fun hlast => ?_
        exact hhandles.2.2 _ hfirst _ (List.mem_flatMap.2 ⟨_, hlast, List.mem_singleton_self _⟩) rfl
      exact iff_of_true (Checker.types_bindItems _ hz hmem hhandles.1) (.inr ⟨rfl, hfirst⟩)
    · rw [hnone hfirst hnew]
      refine iff_of_false (Option.some_ne_none t).symm fun hor => ?_
      exact hor.elim (lt_irrefl _) fun hboth => hfirst hboth.2
  · have hle := (List.pairwise_cons.1 hsorted.2.1).1 _ hlater
    have hne : u.source ≠ v.source := fun heq => (List.nodup_cons.1 hnodup.2.1).1 (heq ▸ hlater)
    rw [hnone (hbefore hne) hnew]
    refine iff_of_false (Option.some_ne_none t).symm fun hor => ?_
    exact hor.elim (not_lt_of_ge hle) fun hboth => hne hboth.1.symm

/-- A bound unit was bound behind the units before it, from a unit that was read. -/
theorem exists_of_bound (h : g.IsSound sources exchanges) {n : String} {w : SourceFile}
    (hw : g.bound.find? n = some w) :
    ∃ earlier later u, u.source = n ∧ Text.sorted g.units.keys = earlier ++ u.source :: later ∧
      g.units.find? u.source = some u ∧ w.items = ((g.beforeItems earlier u).1.bindItems u.source
        (importedScope g.units u) (g.beforeItems earlier u).2 u.items).2 := by
  obtain ⟨earlier, later, u, hnames, hu, rfl⟩ :=
    exists_of_findIn_bindEach ((find?_bound h.keys n).symm.trans hw)
  obtain ⟨rfl, -⟩ := h.unit n u hu
  exact ⟨earlier, later, u, rfl, hnames, hu, rfl⟩

/-- A variable with a variable of another type for its first value is reported if that one comes
before. -/
theorem typeMismatch_mem_findings_iff (h : g.IsSound sources exchanges) {importer imported : String}
    {before : List Item} {y z : Variable} {x : Use} {expected actual : Ty}
    (hinit : g.HasInitializer importer imported before y z x expected actual)
    (hne : actual ≠ expected) :
    typeMismatch importer actual expected (.use x) ∈ (bindAll g).findings ↔
      imported < importer ∨ imported = importer ∧ z.handle ∈ before.flatMap Item.handles := by
  obtain ⟨w, behind, hw, hitems⟩ := hinit.importer
  obtain ⟨w', hw', hmem⟩ := hinit.imported
  obtain ⟨earlier, later, u, rfl, hnames, hu, hbound⟩ := h.exists_of_bound hw
  obtain ⟨earlier', later', v, rfl, -, hv, hbound'⟩ := h.exists_of_bound hw'
  obtain ⟨before', i, behind', hread, rfl, hi, -⟩ :=
    Checker.exists_of_bindItems_eq (hbound.symm.trans hitems)
  obtain ⟨y', rfl, hhandle, htype, hvalue⟩ := Checker.exists_of_bindItem_eq hi.symm
  obtain ⟨z', hz', hhandle', htype'⟩ := Checker.exists_of_mem_bindItems (hbound' ▸ hmem)
  obtain ⟨x', hx', hx⟩ := Checker.exists_use_of_mapUses (hvalue.symm.trans hinit.value)
  rw [Checker.handles_bindItems]
  have hy' : .statement (.variable y') ∈ u.items := by simp [hread]
  have hother : y'.handle ≠ z.handle := by
    rw [hhandle']
    intro heq
    by_cases hsame : u.source = v.source
    · obtain rfl : u = v := Option.some.inj (hu.symm.trans (hsame ▸ hv))
      have hnodup := Table.nodup_of_nodup h.nodup_handles hu
      have hexpected := types_bind g.units ⟨.empty, []⟩ (htype ▸ hinit.expected) hy' hnodup
      rw [heq, types_bind g.units ⟨.empty, []⟩ (htype' ▸ hinit.actual) hz' hnodup] at hexpected
      exact hne (Option.some.inj hexpected)
    · exact Table.disjoint_of_nodup h.nodup_handles hsame hu hv (handle_mem hy')
        (heq ▸ handle_mem hz')
  have hreported := h.typeMismatch_mem_iff hnames hu hread (htype ▸ hinit.expected) hx' hx
    hinit.refers hother hne
  have hknown := h.types_beforeItem_iff hnames hu hread hv hz' (htype' ▸ hinit.actual)
  rw [← hhandle'] at hknown
  exact hreported.trans hknown

end IsSound

end Gathering

/-- Let a variable at the top level of a unit have for its first value a variable of some unit, and let
the two be declared with different types.  The first value is reported if and only if the unit of
the second variable has the smaller name, or if the two units are one that has the second variable
first.  This holds whatever is compiled and however the questions are answered, whether units import
one another in a circle or not. -/
theorem reports_mismatch_iff {budget : Nat} {input : EngineInput} {exchanges : List Exchange}
    {g : Gathering} (h : (gather budget input).Ends exchanges g) {importer imported : String}
    {before : List Item} {y z : Variable} {x : Use} {expected actual : Ty}
    (hinit : g.HasInitializer importer imported before y z x expected actual)
    (hne : actual ≠ expected) :
    (compile budget input).Ends exchanges (bindAll g) ∧
      (typeMismatch importer actual expected (.use x) ∈ (bindAll g).findings ↔
        imported < importer ∨ imported = importer ∧ z.handle ∈ before.flatMap Item.handles) :=
  ⟨h.map, (Gathering.isSound_gather h).typeMismatch_mem_findings_iff hinit hne⟩

/-- A unit with a smaller name than what it imports. -/
def importedLater : EngineInput where
  sources := .ofList [("a", "import \"b\"; var y: int = x;"), ("b", "var x: string = \"s\";")]
  remappings := []
  targetVersion := none

/-- What is known of a variable: its type, what its first value refers to, and its handle. -/
structure Typing where
  type : Option Ty
  refers : Option Int
  handle : Int
  deriving DecidableEq

def Item.typing? : Item → Option Typing
  | .statement (.variable v) => some ⟨v.type?, v.value.bind fun
    | .use x => x.target
    | _ => none, v.handle⟩
  | _ => none

theorem Item.of_typing?_eq_some {i : Item} {t : Typing} (h : i.typing? = some t) :
    ∃ v : Variable, i = .statement (.variable v) ∧ v.type? = t.type ∧ v.handle = t.handle ∧
      ∀ handle, t.refers = some handle → ∃ x, v.value = some (.use x) ∧ x.target = some handle := by
  unfold typing? at h
  split at h
  · next v =>
    obtain rfl := Option.some.inj h
    refine ⟨v, rfl, rfl, rfl, fun handle hrefers => ?_⟩
    obtain ⟨e, he, htarget⟩ := Option.bind_eq_some_iff.1 hrefers
    cases e with
    | use x => exact ⟨x, he, htarget⟩
    | _ => cases htarget
  · cases h

theorem reports_mismatch_importedLater : ∃ exchanges g before y z x,
    (gather 9 importedLater).Ends exchanges g ∧
      g.HasInitializer "a" "b" before y z x .int .string ∧
        (compile 9 importedLater).Ends exchanges (bindAll g) ∧
          typeMismatch "a" .string .int (.use x) ∉ (bindAll g).findings := by
  have hread : ((gather 9 importedLater).converse answerTwice).2.map
      (fun g => ["a", "b"].map fun s => (g.bound.find? s).map fun u => u.items.map Item.typing?) =
        .ok [some [none, some ⟨some .int, some 2, 1⟩], some [some ⟨some .string, none, 2⟩]] := by
    decide +kernel
  obtain ⟨exchanges, g, hends, hunits⟩ := Compiling.exists_ends_of_map hread
  obtain ⟨hfirst, hsecond⟩ := List.cons.inj hunits
  obtain ⟨u, hu, huitems⟩ := Option.map_eq_some_iff.1 hfirst
  obtain ⟨v, hv, hvitems⟩ := Option.map_eq_some_iff.1 (List.cons.inj hsecond).1
  obtain ⟨i, rest, hitems, -, hrest⟩ := List.map_eq_cons_iff.1 huitems
  obtain ⟨j, behind, rfl, hj, -⟩ := List.map_eq_cons_iff.1 hrest
  obtain ⟨k, others, hitems', hk, -⟩ := List.map_eq_cons_iff.1 hvitems
  obtain ⟨y, rfl, hexpected, -, hinitial⟩ := Item.of_typing?_eq_some hj
  obtain ⟨z, rfl, hactual, hhandle, -⟩ := Item.of_typing?_eq_some hk
  obtain ⟨x, hvalue, htarget⟩ := hinitial 2 rfl
  have hinit : g.HasInitializer "a" "b" [i] y z x .int .string :=
    { importer := ⟨u, behind, hu, hitems⟩
      imported := ⟨v, hv, hitems' ▸ List.mem_cons_self⟩
      value := hvalue
      refers := hhandle ▸ htarget
      expected := hexpected
      actual := hactual }
  obtain ⟨hcompiles, hreported⟩ := reports_mismatch_iff hends hinit (by decide)
  refine ⟨exchanges, g, [i], y, z, x, hends, hinit, hcompiles, fun hmem => ?_⟩
  rcases hreported.1 hmem with hlt | hboth
  · exact absurd hlt (by decide)
  · exact absurd hboth.1 (by decide)

end LanguageServer.Toy
