import LanguageServer.Proofs.Toy.Locality
import LanguageServer.Proofs.Toy.Places
import LanguageServer.Proofs.Toy.Soundness

/-!
# What binding finds

Scopes hold declarations that were read, so a use refers to one of its name.  What binding finds
lies at a use, at a value, at the name of a type, or at a declaration: in the text of some unit.

## Main definitions

* `Declaration.IsStored` — a declaration lies in a place, and its handle leads to one of its name.
* `Use.IsBound` — what a use refers to has its name.
* `Checker.Finds` — the findings that are added lie in places of a kind.
* `SourceFile.StandsIn` — the names of a unit, and what is inside its items, stand in such places.

## Main statements

* `Checker.bindStatement_finds` — what binding a statement finds.
* `SourceFile.bind_finds` — what binding a unit finds.
* `bindEach_finds` — what binding some units finds.
-/

namespace LanguageServer

variable {P : SourceLocation → Prop} {d : Table Int Declaration}

/-- A declaration lies in a place of a kind, and its handle leads to one of its name. -/
structure Declaration.IsStored (P : SourceLocation → Prop) (d : Table Int Declaration)
    (x : Declaration) : Prop where
  place : P x.location
  stored : ∃ y, d.find? x.handle = some y ∧ y.name = x.name

theorem Node.IsLaidOut.liesIn {source : String} {length : Nat} {n : Node}
    (h : n.IsLaidOut source length) : n.location.LiesIn source length :=
  ⟨h.source, h.start, h.ordered, h.stop⟩

namespace Toy

variable {source : String} {text : List Char} {scopes : Scopes} {scope : Scope} {c : Checker}

/-! ## Places -/

/-- The place of a name lies in its text. -/
theorem Name.IsTokenOf.liesIn {name : Name} (h : name.IsTokenOf text) :
    (name.span.within source).LiesIn source text.length := by
  obtain ⟨t, ht, -, rfl⟩ := h
  have hpiece := isPieceOf_of_mem_tokens ht
  exact ⟨rfl, Int.natCast_nonneg _, Int.ofNat_le.2 (Nat.le_of_lt hpiece.nonempty),
    Int.ofNat_le.2 hpiece.stop⟩

theorem IsSoundIn.self {n : Node} (h : IsSoundIn source text d n) : IsSound source text d n :=
  h n (mem_preorder.2 (.inl rfl))

theorem IsSoundIn.child {n m : Node} (h : IsSoundIn source text d n) (hm : m ∈ n.children) :
    IsSoundIn source text d m :=
  fun k hk => h k (mem_preorder.2 (.inr ⟨m, hm, hk⟩))

/-- A use in a tree stands where its node does. -/
theorem IsSoundIn.use {n : Node} (h : IsSoundIn source text d n)
    (hinside : ∀ m ∈ Node.preorderAll n.children, P m.location) {u : Use}
    (hu : u ∈ usesOf n.children) : P (u.name.span.within source) := by
  obtain ⟨m, hm, rfl⟩ := List.mem_map.1 hu
  have hmem := (List.mem_filter.1 hm).1
  rw [(h m (by simp [Node.preorder_eq, hmem])).laidOut.location_use]
  exact hinside m hmem

/-- What a node declares is stored. -/
theorem IsSoundIn.isStored {n : Node} (h : IsSoundIn source text d n) {name : Name} {handle : Int}
    (hplace : P (name.span.within source)) (hdeclares : n.label.declares = some handle)
    (hname : n.label.name = some name.text) : (declarationOf source name handle).IsStored P d where
  place := hplace
  stored := by
    obtain ⟨other, -, hother, hfind, -⟩ := h.self.declared handle hdeclares
    exact ⟨_, hfind, Option.some.inj (hother.symm.trans hname)⟩

/-! ## Scopes -/

/-- A scope holds stored declarations under their names. -/
def Scope.IsStored (P : SourceLocation → Prop) (d : Table Int Declaration) (scope : Scope) : Prop :=
  ∀ name x, scope.find? name = some x → x.name = name ∧ x.IsStored P d

theorem isStored_empty : Scope.IsStored P d .empty := fun _ _ => nofun

theorem Scope.IsStored.insert (h : Scope.IsStored P d scope) {x : Declaration}
    (hx : x.IsStored P d) : Scope.IsStored P d (Table.insert scope x.name x) := by
  intro name y hy
  rw [Table.find?_insert] at hy
  split at hy
  · next heq =>
    obtain rfl := Option.some.inj hy
    exact ⟨heq, hx⟩
  · exact h name y hy

/-- What a use refers to has its name. -/
def Use.IsBound (d : Table Int Declaration) (u : Use) : Prop :=
  ∀ handle, u.target = some handle → ∃ y, d.find? handle = some y ∧ y.name = u.name.text

theorem findInnermost_isStored {l : List Scope} (h : ∀ scope ∈ l, Scope.IsStored P d scope)
    {name : String} {x : Declaration} (hx : findInnermost name l = some x) :
    x.name = name ∧ x.IsStored P d := by
  obtain ⟨scope, hscope, hfind⟩ := List.exists_of_findSome?_eq_some hx
  exact h scope hscope name x hfind

theorem Scopes.isBound_resolve (h : ∀ scope ∈ scopes.inward, Scope.IsStored P d scope) (u : Use) :
    (scopes.resolve u).IsBound d := by
  intro handle hhandle
  obtain ⟨x, hx, rfl⟩ := Option.map_eq_some_iff.1 hhandle
  obtain ⟨hname, hstored⟩ := findInnermost_isStored h hx
  obtain ⟨y, hy, hsame⟩ := hstored.stored
  exact ⟨y, hy, hsame.trans hname⟩

theorem Expr.span_mapUses {f : Use → Use} (hf : ∀ u, (f u).name = u.name) (e : Expr) :
    (e.mapUses f).span = e.span := by
  cases e with
  | use u => exact congrArg Name.span (hf u)
  | _ => rfl

theorem Checker.span_bindExpr (e : Expr) : (c.bindExpr source scopes e).2.span = e.span :=
  Expr.span_mapUses (f := scopes.resolve) (fun _ => rfl) e

theorem Expr.location_toNode (e : Expr) : (e.toNode source).location = e.span.within source := by
  cases e <;> rfl

/-! ## Checking -/

namespace Checker

variable {c' c'' : Checker}

/-- The findings that are added lie in places of a kind. -/
def Finds (P : SourceLocation → Prop) (c c' : Checker) : Prop :=
  ∀ f ∈ c'.findings, f ∈ c.findings ∨ f.IsPlaced P

theorem Finds.refl (c : Checker) : c.Finds P c := fun _ => .inl

theorem Finds.trans (h : c.Finds P c') (h' : c'.Finds P c'') : c.Finds P c'' :=
  fun f hf => (h' f hf).elim (h f) .inr

theorem Finds.report (c : Checker) {f : Finding} (hf : f.IsPlaced P) : c.Finds P (c.report f) := by
  intro g hg
  refine (List.mem_append.1 hg).imp_right fun hg => ?_
  exact List.mem_singleton.1 hg ▸ hf

theorem add_finds {x : Declaration} (hx : x.IsStored P d) (hscope : Scope.IsStored P d scope)
    {outer : List Scope} (houter : ∀ scope ∈ outer, Scope.IsStored P d scope) :
    c.Finds P (c.add x scope outer).1 ∧ Scope.IsStored P d (c.add x scope outer).2 := by
  unfold add
  cases hprevious : scope.find? x.name with
  | some previous =>
    refine ⟨.report c ⟨⟨_, rfl, hx.place⟩, fun r hr => ?_⟩, hscope⟩
    obtain rfl := List.mem_singleton.1 hr
    exact (hscope _ _ hprevious).2.place
  | none =>
    refine ⟨?_, hscope.insert hx⟩
    cases hhidden : findInnermost x.name outer with
    | none => exact .refl c
    | some hidden =>
      refine .report c ⟨⟨_, rfl, hx.place⟩, fun r hr => ?_⟩
      obtain rfl := List.mem_singleton.1 hr
      exact (findInnermost_isStored houter hhidden).2.place

theorem addAll_finds {l : List Declaration} (hl : ∀ x ∈ l, x.IsStored P d)
    (hscope : Scope.IsStored P d scope) {outer : List Scope}
    (houter : ∀ scope ∈ outer, Scope.IsStored P d scope) :
    c.Finds P (c.addAll scope outer l).1 ∧ Scope.IsStored P d (c.addAll scope outer l).2 := by
  induction l generalizing c scope with
  | nil => exact ⟨.refl c, hscope⟩
  | cons x rest ih =>
    obtain ⟨hfinds, hadded⟩ := add_finds (c := c) (hl x List.mem_cons_self) hscope houter
    obtain ⟨hmore, hall⟩ := ih (c := (c.add x scope outer).1)
      (fun y hy => hl y (List.mem_cons_of_mem _ hy)) hadded
    exact ⟨hfinds.trans hmore, hall⟩

theorem bindExpr_finds (hscopes : ∀ scope ∈ scopes.inward, Scope.IsStored P d scope) {e : Expr}
    (he : ∀ u ∈ e.uses, P (u.name.span.within source)) :
    c.Finds P (c.bindExpr source scopes e).1 ∧
      ∀ u ∈ (c.bindExpr source scopes e).2.uses, u.IsBound d := by
  have huses : (e.mapUses scopes.resolve).uses = e.uses.map scopes.resolve := Expr.uses_mapUses _ e
  constructor
  · intro f hf
    refine (List.mem_append.1 hf).imp_right fun hf => ?_
    obtain ⟨u', hu', rfl⟩ := List.mem_map.1 hf
    have hmem := (List.mem_filter.1 hu').1
    rw [huses] at hmem
    obtain ⟨u, hu, rfl⟩ := List.mem_map.1 hmem
    exact ⟨⟨_, rfl, he u hu⟩, fun _ => nofun⟩
  · intro u' hu'
    have hmem : u' ∈ e.uses.map scopes.resolve := huses ▸ hu'
    obtain ⟨u, -, rfl⟩ := List.mem_map.1 hmem
    exact Scopes.isBound_resolve hscopes u

theorem bindExpr?_finds (hscopes : ∀ scope ∈ scopes.inward, Scope.IsStored P d scope)
    {e : Option Expr} (he : ∀ u ∈ Expr.usesIn e, P (u.name.span.within source)) :
    c.Finds P (c.bindExpr? source scopes e).1 ∧
      ∀ u ∈ Expr.usesIn (c.bindExpr? source scopes e).2, u.IsBound d := by
  cases e with
  | none => exact ⟨.refl c, fun _ => nofun⟩
  | some e => exact bindExpr_finds hscopes he

theorem checkAssignable_finds (expected : Option Ty) {value : Expr}
    (hvalue : P (value.span.within source)) : c.Finds P (c.checkAssignable source expected value) := by
  unfold checkAssignable
  split
  · split
    · exact .refl c
    · exact .report c ⟨⟨_, rfl, hvalue⟩, fun _ => nofun⟩
  · exact .refl c

theorem checkVariable_finds {v : Variable}
    (hnames : ∀ name ∈ v.typeName, P (name.span.within source))
    (hvalue : ∀ value ∈ v.value, P (value.span.within source)) :
    c.Finds P (c.checkVariable source v) := by
  unfold checkVariable
  split
  · split <;> exact .refl c
  · next name hname =>
    split
    · exact .report c ⟨⟨_, rfl, hnames name hname⟩, fun _ => nofun⟩
    · simp only
      split
      · exact .refl c
      · next value hsome => exact checkAssignable_finds _ (hvalue value hsome)

/-- A local variable joins the local scope. -/
theorem addLocal_finds (hscopes : ∀ scope ∈ scopes.inward, Scope.IsStored P d scope) {v : Variable}
    (hv : (declarationOf source v.name v.handle).IsStored P d) :
    c.Finds P (c.addLocal source scopes v).1 ∧
      ∀ scope ∈ (c.addLocal source scopes v).2.inward, Scope.IsStored P d scope := by
  unfold addLocal
  cases hlocals : scopes.locals with
  | none => exact ⟨.refl c, hscopes⟩
  | some locals =>
    have hinward : scopes.inward = [locals, scopes.globals, scopes.imported] := by
      rw [Scopes.inward, hlocals]
      rfl
    rw [hinward] at hscopes
    obtain ⟨hfinds, hadded⟩ := add_finds (c := c) hv (hscopes locals List.mem_cons_self)
      fun scope hscope => hscopes scope (List.mem_cons_of_mem _ hscope)
    refine ⟨hfinds, fun scope hscope => ?_⟩
    rcases List.mem_cons.1 hscope with rfl | hscope
    · exact hadded
    · exact hscopes scope (List.mem_cons_of_mem _ hscope)

/-- Binding a statement: what is found lies in places of a kind if its names and what is inside it
do, and the uses are bound. -/
theorem bindStatement_finds (hscopes : ∀ scope ∈ scopes.inward, Scope.IsStored P d scope)
    {s : Statement} (hs : IsSoundIn source text d (s.toNode source))
    (hnames : ∀ name ∈ s.names, P (name.span.within source))
    (hinside : ∀ m ∈ Node.preorderAll (s.toNode source).children, P m.location) :
    c.Finds P (c.bindStatement source scopes s).1 ∧
      (∀ scope ∈ (c.bindStatement source scopes s).2.1.inward, Scope.IsStored P d scope) ∧
        ∀ u ∈ (c.bindStatement source scopes s).2.2.uses, u.IsBound d := by
  have hover : (s.toNode source).isUse = false := by cases s <;> rfl
  have huses : ∀ u ∈ s.uses, P (u.name.span.within source) := fun u hu =>
    hs.use hinside (usesOf_over hover ▸ s.usesOf_toNode ▸ hu)
  have hchild (value : Expr) (hvalue : value.toNode source ∈ (s.toNode source).children) :
      P (value.span.within source) :=
    value.location_toNode ▸ hinside _ (mem_preorderAll.2 ⟨_, hvalue, mem_preorder.2 (.inl rfl)⟩)
  cases s with
  | expression value span =>
    obtain ⟨hfinds, hbound⟩ := bindExpr_finds (c := c) hscopes huses
    exact ⟨hfinds, hscopes, hbound⟩
  | giveBack value span =>
    obtain ⟨hfinds, hbound⟩ := bindExpr?_finds (c := c) hscopes huses
    exact ⟨hfinds, hscopes, hbound⟩
  | assignment target value span =>
    obtain ⟨htarget, hvalue⟩ := List.forall_mem_cons.1 huses
    obtain ⟨hfirst, hbound⟩ := bindExpr_finds (c := c) (e := .use target) hscopes
      fun u hu => List.mem_singleton.1 hu ▸ htarget
    obtain ⟨hsecond, hmore⟩ := bindExpr_finds (c := (c.bindExpr source scopes (.use target)).1)
      hscopes hvalue
    have hplace := hchild value (List.mem_cons_of_mem _ (List.mem_singleton_self _))
    refine ⟨(hfirst.trans hsecond).trans (checkAssignable_finds _ ?_), hscopes, ?_⟩
    · exact Expr.span_mapUses (f := scopes.resolve) (fun _ => rfl) value ▸ hplace
    · exact List.forall_mem_cons.2 ⟨hbound _ (List.mem_singleton_self _), hmore⟩
  | «variable» v =>
    obtain ⟨hname, htype⟩ := List.forall_mem_cons.1 hnames
    have hdeclared : (declarationOf source v.name v.handle).IsStored P d :=
      hs.isStored hname rfl rfl
    obtain ⟨hfirst, hbound⟩ := bindExpr?_finds (c := c) hscopes huses
    obtain ⟨hsecond, hadded⟩ := addLocal_finds (c := (c.bindExpr? source scopes v.value).1)
      (v := { v with value := (c.bindExpr? source scopes v.value).2 }) hscopes hdeclared
    refine ⟨(hfirst.trans hsecond).trans (checkVariable_finds (fun name hname => ?_) ?_),
      hadded, hbound⟩
    · exact htype name (Option.mem_toList.2 hname)
    · intro bound hvalue
      cases hv : v.value with
      | none => simp [hv] at hvalue
      | some value =>
        simp only [hv, Option.mem_def, Option.some.injEq] at hvalue
        rw [← hvalue, span_bindExpr]
        refine hchild value ?_
        rw [Statement.toNode, hv]
        exact List.mem_singleton_self _

theorem bindStatements_finds (hscopes : ∀ scope ∈ scopes.inward, Scope.IsStored P d scope)
    {l : List Statement} (hl : ∀ s ∈ l, IsSoundIn source text d (s.toNode source))
    (hnames : ∀ name ∈ l.flatMap Statement.names, P (name.span.within source))
    (hinside : ∀ s ∈ l, ∀ m ∈ Node.preorderAll (s.toNode source).children, P m.location) :
    c.Finds P (c.bindStatements source scopes l).1 ∧
      ∀ u ∈ (c.bindStatements source scopes l).2.flatMap Statement.uses, u.IsBound d := by
  induction l generalizing c scopes with
  | nil => exact ⟨.refl c, fun _ => nofun⟩
  | cons s rest ih =>
    rw [List.flatMap_cons, List.forall_mem_append] at hnames
    obtain ⟨hs, hrest⟩ := List.forall_mem_cons.1 hl
    obtain ⟨hown, hothers⟩ := List.forall_mem_cons.1 hinside
    obtain ⟨hfinds, hbehind, hbound⟩ := bindStatement_finds (c := c) hscopes hs hnames.1 hown
    obtain ⟨hmore, hall⟩ :=
      ih (c := (c.bindStatement source scopes s).1) hbehind hrest hnames.2 hothers
    refine ⟨hfinds.trans hmore, ?_⟩
    simp only [bindStatements, List.flatMap_cons]
    exact List.forall_mem_append.2 ⟨hbound, hall⟩

variable {imported globals : Scope}

theorem bindItem_finds (himported : Scope.IsStored P d imported)
    (hglobals : Scope.IsStored P d globals) {i : Item}
    (hi : IsSoundIn source text d (i.toNode source))
    (hnames : ∀ name ∈ i.names, P (name.span.within source))
    (hinside : ∀ m ∈ Node.preorderAll (i.toNode source).children, P m.location) :
    c.Finds P (c.bindItem source imported globals i).1 ∧
      ∀ u ∈ (c.bindItem source imported globals i).2.uses, u.IsBound d := by
  have houter : ∀ scope ∈ [globals, imported], Scope.IsStored P d scope := by
    simp [himported, hglobals]
  cases i with
  | importing path span target => exact ⟨.refl c, fun _ => nofun⟩
  | statement s =>
    have hinward : ∀ scope ∈ (⟨imported, globals, none⟩ : Scopes).inward,
        Scope.IsStored P d scope := houter
    obtain ⟨hfinds, -, hbound⟩ := bindStatement_finds (c := c) hinward hi hnames hinside
    exact ⟨hfinds, hbound⟩
  | function f =>
    obtain ⟨-, hnames⟩ := List.forall_mem_cons.1 hnames
    obtain ⟨hparameters, hbody⟩ := List.forall_mem_append.1 hnames
    have hdeclared : ∀ x ∈ f.parameters.map fun p => declarationOf source p.name p.handle,
        x.IsStored P d := by
      intro x hx
      obtain ⟨p, hp, rfl⟩ := List.mem_map.1 hx
      refine (hi.child (m := p.toNode source) ?_).isStored
        (hparameters _ (List.mem_map_of_mem hp)) rfl rfl
      exact List.mem_append_left _ (List.mem_map_of_mem hp)
    obtain ⟨hadds, hlocals⟩ := addAll_finds (c := c) hdeclared isStored_empty houter
    have hinward : ∀ scope ∈ (⟨imported, globals, some (c.addAll .empty [globals, imported]
        (f.parameters.map fun p => declarationOf source p.name p.handle)).2⟩ : Scopes).inward,
        Scope.IsStored P d scope := List.forall_mem_cons.2 ⟨hlocals, houter⟩
    obtain ⟨hfinds, hbound⟩ := bindStatements_finds
      (c := (c.addAll .empty [globals, imported]
        (f.parameters.map fun p => declarationOf source p.name p.handle)).1) hinward
      (fun s hs => hi.child (List.mem_append_right _ (List.mem_map_of_mem hs))) hbody
      fun s hs m hm => hinside m (mem_preorderAll.2
        ⟨_, List.mem_append_right _ (List.mem_map_of_mem hs), by simp [Node.preorder_eq, hm]⟩)
    exact ⟨hadds.trans hfinds, hbound⟩

theorem bindItems_finds (himported : Scope.IsStored P d imported)
    (hglobals : Scope.IsStored P d globals) {l : List Item}
    (hl : ∀ i ∈ l, IsSoundIn source text d (i.toNode source))
    (hnames : ∀ name ∈ l.flatMap Item.names, P (name.span.within source))
    (hinside : ∀ i ∈ l, ∀ m ∈ Node.preorderAll (i.toNode source).children, P m.location) :
    c.Finds P (c.bindItems source imported globals l).1 ∧
      ∀ u ∈ (c.bindItems source imported globals l).2.flatMap Item.uses, u.IsBound d := by
  induction l generalizing c with
  | nil => exact ⟨.refl c, fun _ => nofun⟩
  | cons i rest ih =>
    rw [List.flatMap_cons, List.forall_mem_append] at hnames
    obtain ⟨hi, hrest⟩ := List.forall_mem_cons.1 hl
    obtain ⟨hown, hothers⟩ := List.forall_mem_cons.1 hinside
    obtain ⟨hfinds, hbound⟩ := bindItem_finds (c := c) himported hglobals hi hnames.1 hown
    obtain ⟨hmore, hall⟩ :=
      ih (c := (c.bindItem source imported globals i).1) hrest hnames.2 hothers
    refine ⟨hfinds.trans hmore, ?_⟩
    simp only [bindItems, List.flatMap_cons]
    exact List.forall_mem_append.2 ⟨hbound, hall⟩

end Checker

/-! ## Units -/

/-- The names of a unit, and what is inside its items, stand in places of a kind. -/
structure SourceFile.StandsIn (P : SourceLocation → Prop) (u : SourceFile) : Prop where
  name : ∀ name ∈ u.names, P (name.span.within u.source)
  inside : ∀ i ∈ u.items, ∀ m ∈ Node.preorderAll (i.toNode u.source).children, P m.location

/-- The items of a unit are sound. -/
theorem SourceFile.IsSound.item {u : SourceFile} (h : u.IsSound text d) {i : Item}
    (hi : i ∈ u.items) : IsSoundIn u.source text d (i.toNode u.source) :=
  h.tree.child (List.mem_map_of_mem hi)

/-- A unit stands in its text. -/
theorem SourceFile.IsSound.standsIn {u : SourceFile} (h : u.IsSound text d)
    (hP : ∀ l : SourceLocation, l.LiesIn u.source text.length → P l) : u.StandsIn P where
  name name hname := hP _ (h.named name hname).liesIn
  inside i hi m hm := hP _ (h.item hi m (by simp [Node.preorder_eq, hm])).laidOut.liesIn

/-- What a unit declares at its top level is stored. -/
theorem SourceFile.IsSound.isStored {u : SourceFile} (h : u.IsSound text d) (hP : u.StandsIn P) :
    ∀ x ∈ u.declarations, x.IsStored P d := by
  intro x hx
  obtain ⟨item, hitem, hx⟩ := List.mem_filterMap.1 hx
  obtain ⟨⟨name, handle⟩, hdeclares, rfl⟩ := Option.map_eq_some_iff.1 hx
  have hsound := h.item hitem
  have hnamed : ∀ name ∈ item.names, P (name.span.within u.source) := fun name hname =>
    hP.name name (List.mem_flatMap.2 ⟨item, hitem, hname⟩)
  cases item with
  | importing path span target => cases hdeclares
  | function f =>
    cases hdeclares
    exact hsound.isStored (hnamed _ List.mem_cons_self) rfl rfl
  | statement s =>
    cases s with
    | «variable» v =>
      cases hdeclares
      exact hsound.isStored (hnamed _ List.mem_cons_self) rfl rfl
    | _ => cases hdeclares

/-- What the imports of a unit declare is stored. -/
theorem importedScope_isStored {units : Table String SourceFile}
    (hunits : ∀ name other, units.find? name = some other →
      ∀ x ∈ other.declarations, x.IsStored P d) (u : SourceFile) :
    Scope.IsStored P d (importedScope units u) := by
  intro name x hx
  rw [importedScope_eq] at hx
  rw [Table.find?_ofList] at hx
  obtain ⟨e, he, hfound⟩ := List.exists_of_findSome?_eq_some hx
  obtain ⟨y, hy, rfl⟩ := List.mem_map.1 (List.mem_reverse.1 he)
  simp only [Option.ite_none_right_eq_some, Option.some.injEq] at hfound
  obtain ⟨hname, rfl⟩ := hfound
  refine ⟨hname, ?_⟩
  obtain ⟨i, -, hmem⟩ := List.mem_flatMap.1 hy
  cases hfind : units.find? i.key with
  | none => simp [hfind] at hmem
  | some other =>
    rw [hfind] at hmem
    exact hunits _ other hfind y hmem

/-- Binding a unit: what is found lies in places of a kind, and the uses are bound. -/
theorem SourceFile.bind_finds {units : Table String SourceFile}
    (hunits : ∀ name other, units.find? name = some other →
      ∀ x ∈ other.declarations, x.IsStored P d) {u : SourceFile} (h : u.IsSound text d)
    (hP : u.StandsIn P) :
    c.Finds P (u.bind units c).1 ∧ ∀ use ∈ (u.bind units c).2.uses, use.IsBound d := by
  obtain ⟨hadds, hglobals⟩ := Checker.addAll_finds (c := c) (h.isStored hP) isStored_empty
    (List.forall_mem_nil _)
  obtain ⟨hfinds, hbound⟩ := Checker.bindItems_finds (c := (c.addAll .empty [] u.declarations).1)
    (importedScope_isStored hunits u) hglobals (fun i hi => h.item hi) hP.name hP.inside
  exact ⟨hadds.trans hfinds, hbound⟩

/-- Binding units: what is found lies in places of a kind. -/
theorem bindEach_finds {units : Table String SourceFile}
    (hunits : ∀ name u, units.find? name = some u → (∃ text, u.IsSound text d) ∧ u.StandsIn P)
    (names : List String) :
    c.Finds P (bindEach units c names).1 := by
  have hstored (name : String) (other : SourceFile) (hother : units.find? name = some other) :
      ∀ x ∈ other.declarations, x.IsStored P d := by
    obtain ⟨⟨text, hsound⟩, hP⟩ := hunits name other hother
    exact hsound.isStored hP
  induction names generalizing c with
  | nil => exact .refl c
  | cons name rest ih =>
    cases hu : units.find? name with
    | none => exact bindEach_of_none hu c rest ▸ ih
    | some u =>
      obtain ⟨⟨text, hsound⟩, hP⟩ := hunits name u hu
      rw [bindEach_of_some hu]
      exact (SourceFile.bind_finds hstored hsound hP).1.trans ih

end Toy

end LanguageServer
