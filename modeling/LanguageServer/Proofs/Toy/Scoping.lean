import LanguageServer.Proofs.Table
import LanguageServer.Proofs.Toy.Outline
import LanguageServer.Proofs.Toy.Renaming
import LanguageServer.Proofs.Toy.Uses

/-!
# What uses of names mean

Scopes are filled while a unit is bound.  What they hold in the end can be said without them: in a
function a name means the first declaration of it among the parameters and the variables before
the use, else what it means at the top level.  There it means the first declaration of it in the
unit, else the last one of the last import that has one.

## Main definitions

* `SourceFile.meaning?` — what a name means at the top level of a unit.
* `Use.Means` — a use refers to what its name means behind some local declarations.
* `Scopes.Sees` — scopes hold some local declarations and what is around them.
* `Item.IsResolved` — all uses in an item refer to what their names mean.

## Main statements

* `Scopes.Sees.bindStatement` — what scopes hold behind a statement.
* `SourceFile.isResolved_bind` — the uses in a bound unit refer to what their names mean.
-/

namespace LanguageServer.Toy

variable {source name : String} {scopes : Scopes} {c : Checker}

/-! ## Meanings -/

/-- The first of some declarations that has a name. -/
def firstNamed (name : String) (l : List Declaration) : Option Declaration := l.find? (·.name = name)

/-- What the imports of a unit declare under a name: the last declaration of the last one. -/
def SourceFile.importedMeaning? (units : Table String SourceFile) (u : SourceFile) (name : String) :
    Option Declaration :=
  u.imports.reverse.findSome? fun s =>
    (units.find? s).bind fun other => firstNamed name other.declarations.reverse

/-- What a name means at the top level of a unit. -/
def SourceFile.meaning? (units : Table String SourceFile) (u : SourceFile) (name : String) :
    Option Declaration :=
  (firstNamed name u.declarations).or (u.importedMeaning? units name)

/-- A use refers to what its name means behind some local declarations. -/
def Use.Means (declared : List Declaration) (top : String → Option Declaration) (u : Use) : Prop :=
  u.target = ((firstNamed u.name.text declared).or (top u.name.text)).map (·.handle)

/-- The declaration that a statement is. -/
def Statement.declaration? (source : String) (s : Statement) : Option Declaration :=
  (Item.statement s).declares?.map fun d => declarationOf source d.1 d.2

/-- All uses in an item refer to what their names mean.  In a function, the parameters and the
variables of earlier statements come first. -/
def Item.IsResolved (source : String) (top : String → Option Declaration) : Item → Prop
  | .importing _ _ _ => True
  | .function f => ∀ before s behind, f.body = before ++ s :: behind → ∀ u ∈ s.uses,
      u.Means (f.parameters.map (fun p => declarationOf source p.name p.handle) ++
        before.filterMap (·.declaration? source)) top
  | .statement s => ∀ u ∈ s.uses, u.Means [] top

theorem findInnermost_cons (scope : Scope) (l : List Scope) :
    findInnermost name (scope :: l) = (scope.find? name).or (findInnermost name l) := by
  rw [findInnermost, List.findSome?_cons]
  cases scope.find? name <;> rfl

theorem firstNamed_append (l l' : List Declaration) :
    firstNamed name (l ++ l') = (firstNamed name l).or (firstNamed name l') := List.find?_append

/-! ## What scopes hold -/

/-- A name that is taken in its scope keeps its meaning. -/
theorem Checker.find?_add (c : Checker) (d : Declaration) (scope : Scope) (outer : List Scope)
    (name : String) : (c.add d scope outer).2.find? name =
      (scope.find? name).or (if d.name = name then some d else none) := by
  unfold add
  cases hprevious : scope.find? d.name with
  | some previous =>
    by_cases heq : d.name = name
    · simp [← heq, hprevious]
    · simp [heq]
  | none =>
    by_cases heq : d.name = name
    · simp [← heq, hprevious]
    · simp [heq]

theorem Checker.find?_addAll (c : Checker) (scope : Scope) (outer : List Scope)
    (l : List Declaration) (name : String) : (c.addAll scope outer l).2.find? name =
      (scope.find? name).or (firstNamed name l) := by
  induction l generalizing c scope with
  | nil => simp [addAll, firstNamed]
  | cons d rest ih =>
    rw [addAll, ih, find?_add, Option.or_assoc, firstNamed, firstNamed, List.find?_cons]
    by_cases heq : d.name = name <;> simp [heq]

/-- The imported scope holds the last of the declarations of a name that the items bring. -/
theorem find?_importedScope_brought (units : Table String SourceFile) (u : SourceFile)
    (name : String) :
    (importedScope units u).find? name = firstNamed name (u.brought units).reverse := by
  have hlast (l : List Declaration) : (l.map fun d => (d.name, d)).findSome?
      (fun e => if e.1 = name then some e.2 else none) = firstNamed name l := by
    induction l with
    | nil => rfl
    | cons d rest ih => by_cases heq : d.name = name <;> simp_all [firstNamed]
  rw [importedScope_eq, Table.find?_ofList, ← List.map_reverse, hlast]

/-- The imported scope holds what the imports declare, unless a unit has no name. -/
theorem find?_importedScope {units : Table String SourceFile} (hunnamed : units.contains "" = false)
    (u : SourceFile) (name : String) :
    (importedScope units u).find? name = u.importedMeaning? units name := by
  have hnone : units.find? "" = none := (Table.contains_eq_false_iff _ _).1 hunnamed
  have hbrought : u.brought units = u.imports.flatMap fun s =>
      ((units.find? s).map (·.declarations)).getD [] := by
    unfold SourceFile.brought SourceFile.imports
    induction u.items with
    | nil => rfl
    | cons i rest ih =>
      rw [List.flatMap_cons, ih, List.filterMap_cons, Item.key]
      cases i.source? <;> simp [hnone]
  rw [find?_importedScope_brought, hbrought, List.reverse_flatMap, firstNamed, List.find?_flatMap,
    SourceFile.importedMeaning?]
  refine congrArg (List.findSome? · u.imports.reverse) (funext fun s => ?_)
  simp only [Function.comp_apply]
  cases units.find? s <;> rfl

/-! ## Scopes in a function -/

/-- The local scope holds some declarations, and the outer scopes hold what names mean at the top
level. -/
structure Scopes.Sees (declared : List Declaration) (top : String → Option Declaration)
    (scopes : Scopes) : Prop where
  locals : ∃ scope, scopes.locals = some scope ∧
    ∀ name, scope.find? name = firstNamed name declared
  outer : ∀ name, findInnermost name [scopes.globals, scopes.imported] = top name

section

variable {declared : List Declaration} {top : String → Option Declaration}

theorem Scopes.Sees.means_resolve (h : scopes.Sees declared top) (u : Use) :
    (scopes.resolve u).Means declared top := by
  obtain ⟨scope, hlocals, hscope⟩ := h.locals
  have hfind : scopes.find? u.name.text =
      (firstNamed u.name.text declared).or (top u.name.text) := by
    rw [Scopes.find?, Scopes.inward, hlocals, ← hscope, ← h.outer]
    exact findInnermost_cons scope _
  exact congrArg (Option.map (·.handle)) hfind

/-- At the top level there are no local declarations. -/
theorem Scopes.means_resolve_of_global (hlocals : scopes.locals = none)
    (houter : ∀ name, findInnermost name [scopes.globals, scopes.imported] = top name) (u : Use) :
    (scopes.resolve u).Means [] top := by
  have hfind : scopes.find? u.name.text = top u.name.text := by
    rw [Scopes.find?, Scopes.inward, hlocals, ← houter]
    rfl
  exact congrArg (Option.map (·.handle)) hfind

/-- A variable is the last of the local declarations. -/
theorem Scopes.Sees.addLocal (h : scopes.Sees declared top) (v : Variable) :
    (c.addLocal source scopes v).2.Sees (declared ++ [declarationOf source v.name v.handle]) top := by
  obtain ⟨scope, hlocals, hscope⟩ := h.locals
  unfold Checker.addLocal
  rw [hlocals]
  refine ⟨⟨_, rfl, fun name => ?_⟩, h.outer⟩
  rw [Checker.find?_add, hscope, firstNamed_append, firstNamed, firstNamed, List.find?_singleton]
  simp

/-- The scopes behind a statement hold what it declares. -/
theorem Scopes.Sees.bindStatement (h : scopes.Sees declared top) (s : Statement) :
    (c.bindStatement source scopes s).2.1.Sees (declared ++ (s.declaration? source).toList) top := by
  cases s with
  | «variable» v => exact h.addLocal _
  | _ => exact (List.append_nil declared).symm ▸ h

theorem Checker.usesIn_bindExpr? (c : Checker) (scopes : Scopes) (e : Option Expr) :
    Expr.usesIn (c.bindExpr? source scopes e).2 = (Expr.usesIn e).map scopes.resolve := by
  cases e with
  | none => rfl
  | some e => exact Expr.uses_mapUses _ e

theorem Checker.uses_bindStatement (c : Checker) (scopes : Scopes) (s : Statement) :
    (c.bindStatement source scopes s).2.2.uses = s.uses.map scopes.resolve := by
  cases s with
  | expression value span => exact Expr.uses_mapUses _ value
  | assignment target value span => exact congrArg _ (Expr.uses_mapUses _ value)
  | «variable» v => exact usesIn_bindExpr? c scopes v.value
  | giveBack value span => exact usesIn_bindExpr? c scopes value

/-- In a body, each use sees the variables before its statement. -/
theorem Checker.means_bindStatements (hsees : scopes.Sees declared top)
    {l before behind : List Statement}
    {s : Statement} (h : (c.bindStatements source scopes l).2 = before ++ s :: behind) :
    ∀ u ∈ s.uses, u.Means (declared ++ before.filterMap (·.declaration? source)) top := by
  induction l generalizing c scopes declared before with
  | nil => simp [bindStatements] at h
  | cons t rest ih =>
    simp only [bindStatements] at h
    cases before with
    | nil =>
      obtain ⟨rfl, -⟩ := List.cons.inj h
      intro u hu
      rw [uses_bindStatement] at hu
      obtain ⟨u', -, rfl⟩ := List.mem_map.1 hu
      simpa using hsees.means_resolve u'
    | cons t' before =>
      obtain ⟨rfl, hrest⟩ := List.cons.inj h
      have hsame : (c.bindStatement source scopes t).2.2.declaration? source =
          t.declaration? source :=
        congrArg (Option.map _) (declares?_bindStatement source scopes c t)
      intro u hu
      have hmeans := ih (hsees.bindStatement t) hrest u hu
      rw [List.append_assoc] at hmeans
      rw [List.filterMap_cons, hsame]
      cases hdeclares : t.declaration? source with
      | none => simpa [hdeclares] using hmeans
      | some d => simpa [hdeclares] using hmeans

/-! ## Items and units -/

theorem Checker.isResolved_bindItem {imported globals : Scope}
    (houter : ∀ name, findInnermost name [globals, imported] = top name) (c : Checker) (i : Item) :
    (c.bindItem source imported globals i).2.IsResolved source top := by
  cases i with
  | importing path span target => trivial
  | statement s =>
    intro u hu
    change u ∈ (c.bindStatement source ⟨imported, globals, none⟩ s).2.2.uses at hu
    rw [uses_bindStatement] at hu
    obtain ⟨u', -, rfl⟩ := List.mem_map.1 hu
    exact Scopes.means_resolve_of_global rfl houter u'
  | function f =>
    intro before s behind hbody
    refine means_bindStatements ⟨⟨_, rfl, fun name => ?_⟩, houter⟩ hbody
    rw [find?_addAll]
    rfl

theorem Checker.isResolved_bindItems {imported globals : Scope}
    (houter : ∀ name, findInnermost name [globals, imported] = top name) (c : Checker)
    (l : List Item) :
    ∀ i ∈ (c.bindItems source imported globals l).2, i.IsResolved source top := by
  induction l generalizing c with
  | nil => exact fun _ => nofun
  | cons i rest ih =>
    exact List.forall_mem_cons.2 ⟨isResolved_bindItem houter c i, ih _⟩

end

/-- The uses in a bound unit refer to what their names mean, unless a unit has no name. -/
theorem SourceFile.isResolved_bind {units : Table String SourceFile}
    (hunnamed : units.contains "" = false) (u : SourceFile) (c : Checker) :
    ∀ i ∈ (u.bind units c).2.items, i.IsResolved u.source (u.meaning? units) := by
  refine Checker.isResolved_bindItems (fun name => ?_) _ u.items
  rw [SourceFile.meaning?, ← find?_importedScope hunnamed, findInnermost_cons, findInnermost_cons,
    Checker.find?_addAll]
  simp [findInnermost]

end LanguageServer.Toy
