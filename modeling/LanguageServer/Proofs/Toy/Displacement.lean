import LanguageServer.Proofs.Toy.Shifting
import LanguageServer.Toy.Engine

/-!
# Binding at other offsets

Names are bound by their spellings, and what they mean is told by handles.  Places are only
handed on, into declarations and findings.  So units at other offsets are bound in the same
way, and what is found in them is the same at other offsets.

## Main definitions

* `Scope.shift`, `Checker.shift`, `shiftUnits` — scopes, checkers and units at other offsets.

## Main statements

* `SourceFile.bind_shift` — a unit at other offsets is bound in the same way.
* `bindUnits_shift` — so are the units of a program.
-/

namespace LanguageServer.Toy

variable {φ : Shift} {source : String} {f : Nat → Nat}

/-! ## Scopes -/

/-- The scope with its declarations at other offsets. -/
def Scope.shift (φ : Shift) (s : Scope) : Scope := s.mapValues fun _ d => d.shift φ

/-- The scopes with their declarations at other offsets. -/
def Scopes.shift (φ : Shift) (s : Scopes) : Scopes where
  imported := s.imported.shift φ
  globals := s.globals.shift φ
  locals := s.locals.map (·.shift φ)

@[simp] theorem Scope.find?_shift (s : Scope) (name : String) :
    (s.shift φ).find? name = (s.find? name).map (·.shift φ) := Table.find?_mapValues _ s name

theorem findInnermost_shift (name : String) (scopes : List Scope) :
    findInnermost name (scopes.map (·.shift φ)) = (findInnermost name scopes).map (·.shift φ) := by
  unfold findInnermost
  rw [List.findSome?_map, List.map_findSome?]
  exact congrArg (List.findSome? · scopes) (funext fun s => s.find?_shift name)

theorem Scopes.inward_shift (s : Scopes) : (s.shift φ).inward = s.inward.map (·.shift φ) := by
  obtain ⟨imported, globals, locals⟩ := s
  cases locals <;> rfl

/-- A use means the same. -/
theorem Scopes.resolve_shift (s : Scopes) (u : Use) :
    (s.shift φ).resolve (u.shift f) = (s.resolve u).shift f := by
  have hfind (name : String) : ((s.shift φ).find? name).map (·.handle) =
      (s.find? name).map (·.handle) := by
    rw [Scopes.find?, Scopes.find?, inward_shift, findInnermost_shift, Option.map_map]
    rfl
  simp only [resolve, Use.shift, Name.shift, hfind]

/-! ## Expressions -/

mutual

theorem Expr.mapUses_shift {g g' : Use → Use} (h : ∀ u, g' (u.shift f) = (g u).shift f) :
    (e : Expr) → (e.shift f).mapUses g' = (e.mapUses g).shift f
  | .number _ => rfl
  | .string _ => rfl
  | .use u => congrArg Expr.use (h u)
  | .call callee arguments span => by
    rw [shift, mapUses, mapUses, h callee, Expr.mapUsesAll_shift h arguments, shift]
  | .sum operands span => by
    rw [shift, mapUses, mapUses, Expr.mapUsesAll_shift h operands, shift]

theorem Expr.mapUsesAll_shift {g g' : Use → Use} (h : ∀ u, g' (u.shift f) = (g u).shift f) :
    (l : List Expr) → Expr.mapUsesAll g' (Expr.shiftAll f l) = Expr.shiftAll f (Expr.mapUsesAll g l)
  | [] => rfl
  | e :: rest => by
    rw [shiftAll, mapUsesAll, mapUsesAll, Expr.mapUses_shift h e, Expr.mapUsesAll_shift h rest,
      shiftAll]

end

mutual

theorem Expr.uses_shift : (e : Expr) → (e.shift f).uses = e.uses.map (·.shift f)
  | .number _ => rfl
  | .string _ => rfl
  | .use _ => rfl
  | .call callee arguments span => by
    rw [shift, uses, uses, Expr.usesAll_shift arguments, List.map_cons]
  | .sum operands span => by rw [shift, uses, uses, Expr.usesAll_shift operands]

theorem Expr.usesAll_shift : (l : List Expr) →
    Expr.usesAll (Expr.shiftAll f l) = (Expr.usesAll l).map (·.shift f)
  | [] => rfl
  | e :: rest => by
    rw [shiftAll, usesAll, usesAll, Expr.uses_shift e, Expr.usesAll_shift rest, List.map_append]

end

mutual

theorem Types.ofExpr?_shift (t : Types) : (e : Expr) → t.ofExpr? (e.shift f) = t.ofExpr? e
  | .number _ => rfl
  | .string _ => rfl
  | .use _ => rfl
  | .call _ _ _ => rfl
  | .sum operands span => by
    rw [Expr.shift, ofExpr?, ofExpr?, Types.ofExprs_shift t operands]

theorem Types.ofExprs_shift (t : Types) : (l : List Expr) →
    t.ofExprs (Expr.shiftAll f l) = t.ofExprs l
  | [] => rfl
  | e :: rest => by
    rw [Expr.shiftAll, ofExprs, ofExprs, Types.ofExpr?_shift t e, Types.ofExprs_shift t rest]

end

/-! ## Checking -/

namespace Checker

/-- The checker with its findings at other offsets. -/
def shift (φ : Shift) (c : Checker) : Checker := { c with findings := c.findings.map (·.shift φ) }

theorem report_shift (c : Checker) (g : Finding) :
    (c.shift φ).report (g.shift φ) = (c.report g).shift φ := by
  simp [report, shift]

theorem reportAll_shift (c : Checker) (l : List Finding) :
    (c.shift φ).reportAll (l.map (·.shift φ)) = (c.reportAll l).shift φ := by
  simp [reportAll, shift]

/-- What adding a declaration leaves, at other offsets. -/
theorem add_shift (c : Checker) (d : Declaration) (scope : Scope) (outer : List Scope) :
    (c.shift φ).add (d.shift φ) (scope.shift φ) (outer.map (·.shift φ)) =
      ((c.add d scope outer).1.shift φ, (c.add d scope outer).2.shift φ) := by
  unfold add
  rw [show (d.shift φ).name = d.name from rfl, Scope.find?_shift, findInnermost_shift]
  cases scope.find? d.name with
  | some previous => exact congrArg (·, scope.shift φ) (c.report_shift (redeclared d previous))
  | none =>
    have hinsert : (scope.shift φ).insert d.name (d.shift φ) = Scope.shift φ (scope.insert d.name d) :=
      (Table.mapValues_insert ..).symm
    cases findInnermost d.name outer with
    | none => exact congrArg (c.shift φ, ·) hinsert
    | some hidden => exact congrArg₂ (·, ·) (c.report_shift (shadowing d hidden)) hinsert

theorem addAll_shift (c : Checker) (scope : Scope) (outer : List Scope) (l : List Declaration) :
    (c.shift φ).addAll (scope.shift φ) (outer.map (·.shift φ)) (l.map (·.shift φ)) =
      ((c.addAll scope outer l).1.shift φ, (c.addAll scope outer l).2.shift φ) := by
  induction l generalizing c scope with
  | nil => rfl
  | cons d rest ih =>
    simp only [List.map_cons, addAll, add_shift]
    exact ih _ _

theorem bindExpr_shift (scopes : Scopes) (c : Checker) (e : Expr) :
    (c.shift φ).bindExpr source (scopes.shift φ) (e.shift (φ.map source)) =
      ((c.bindExpr source scopes e).1.shift φ, (c.bindExpr source scopes e).2.shift (φ.map source)) := by
  have hmeant := Expr.mapUses_shift (f := φ.map source) (scopes.resolve_shift (φ := φ)) e
  simp only [bindExpr, hmeant, Expr.uses_shift, ← reportAll_shift, List.map_map, List.filter_map]
  rfl

theorem bindExpr?_shift (scopes : Scopes) (c : Checker) (e : Option Expr) :
    (c.shift φ).bindExpr? source (scopes.shift φ) (e.map (·.shift (φ.map source))) =
      ((c.bindExpr? source scopes e).1.shift φ,
        (c.bindExpr? source scopes e).2.map (·.shift (φ.map source))) := by
  cases e with
  | none => rfl
  | some e => simp only [Option.map_some, bindExpr?, bindExpr_shift]

theorem checkAssignable_shift (c : Checker) (expected : Option Ty) (value : Expr) :
    (c.shift φ).checkAssignable source expected (value.shift (φ.map source)) =
      (c.checkAssignable source expected value).shift φ := by
  unfold checkAssignable
  rw [show (c.shift φ).types = c.types from rfl, c.types.ofExpr?_shift value]
  split
  · next expected actual _ =>
    have hreport := c.report_shift (φ := φ) (typeMismatch source actual expected value)
    have hmismatch : typeMismatch source actual expected (value.shift (φ.map source)) =
        (typeMismatch source actual expected value).shift φ := by
      simp only [typeMismatch, value.span_shift]
      rfl
    rw [hmismatch, hreport]
    split <;> rfl
  · rfl

theorem checkVariable_shift (c : Checker) (v : Variable) :
    (c.shift φ).checkVariable source (v.shift (φ.map source)) = (c.checkVariable source v).shift φ := by
  obtain ⟨name, typeName, value, span, handle⟩ := v
  cases typeName with
  | none =>
    cases value with
    | none => rfl
    | some value =>
      simp only [checkVariable, Variable.shift, Option.map_none, Option.map_some, Option.bind_some,
        show (c.shift φ).types = c.types from rfl, c.types.ofExpr?_shift value]
      split <;> rfl
  | some written =>
    simp only [checkVariable, Variable.shift, Option.map_some]
    rw [show (written.shift (φ.map source)).text = written.text from rfl]
    split
    · exact c.report_shift (unknownType source written)
    · next t _ =>
      cases value with
      | none => rfl
      | some value =>
        exact checkAssignable_shift (c := { c with types := c.types.insert handle t }) (some t) value

theorem addLocal_shift (scopes : Scopes) (c : Checker) (v : Variable) :
    (c.shift φ).addLocal source (scopes.shift φ) (v.shift (φ.map source)) =
      ((c.addLocal source scopes v).1.shift φ, (c.addLocal source scopes v).2.shift φ) := by
  obtain ⟨imported, globals, locals⟩ := scopes
  cases locals with
  | none => rfl
  | some locals =>
    have hadd (d : Declaration) :
        (c.shift φ).add (d.shift φ) (locals.shift φ) [globals.shift φ, imported.shift φ] =
          ((c.add d locals [globals, imported]).1.shift φ,
            (c.add d locals [globals, imported]).2.shift φ) :=
      c.add_shift d locals [globals, imported]
    simp only [addLocal, Scopes.shift, Option.map_some]
    rw [show declarationOf source (v.shift (φ.map source)).name (v.shift (φ.map source)).handle =
      (declarationOf source v.name v.handle).shift φ from rfl, hadd]

/-- A statement at other offsets is bound in the same way. -/
theorem bindStatement_shift (scopes : Scopes) (c : Checker) (s : Statement) :
    (c.shift φ).bindStatement source (scopes.shift φ) (s.shift (φ.map source)) =
      ((c.bindStatement source scopes s).1.shift φ, (c.bindStatement source scopes s).2.1.shift φ,
        (c.bindStatement source scopes s).2.2.shift (φ.map source)) := by
  cases s with
  | expression value span => simp only [Statement.shift, bindStatement, bindExpr_shift]
  | «variable» v =>
    -- What is checked and added is the variable with its value after binding.
    have hlocal (c : Checker) (value : Option Expr) :
        (c.shift φ).addLocal source (scopes.shift φ) (Variable.shift (φ.map source) { v with value }) =
          _ := addLocal_shift scopes c { v with value }
    have hcheck (c : Checker) (value : Option Expr) :
        (c.shift φ).checkVariable source (Variable.shift (φ.map source) { v with value }) = _ :=
      checkVariable_shift c { v with value }
    simp only [Variable.shift] at hlocal hcheck
    simp only [Statement.shift, Variable.shift, bindStatement, bindExpr?_shift, hlocal, hcheck]
  | assignment target value span =>
    have htarget : (c.shift φ).bindExpr source (scopes.shift φ) (Expr.shift (φ.map source) (.use target)) =
        _ := bindExpr_shift scopes c (.use target)
    simp only [Expr.shift] at htarget
    simp only [Statement.shift, bindStatement, htarget, bindExpr_shift]
    exact congrArg₂ (·, ·) (checkAssignable_shift ..) rfl
  | giveBack value span => simp only [Statement.shift, bindStatement, bindExpr?_shift]

theorem bindStatements_shift (scopes : Scopes) (c : Checker) (l : List Statement) :
    (c.shift φ).bindStatements source (scopes.shift φ) (l.map (·.shift (φ.map source))) =
      ((c.bindStatements source scopes l).1.shift φ,
        (c.bindStatements source scopes l).2.map (·.shift (φ.map source))) := by
  induction l generalizing scopes c with
  | nil => rfl
  | cons s rest ih => simp only [List.map_cons, bindStatements, bindStatement_shift, ih]

/-- An item at other offsets is bound in the same way. -/
theorem bindItem_shift (imported globals : Scope) (c : Checker) (i : Item) :
    (c.shift φ).bindItem source (imported.shift φ) (globals.shift φ) (i.shift (φ.map source)) =
      ((c.bindItem source imported globals i).1.shift φ,
        (c.bindItem source imported globals i).2.shift (φ.map source)) := by
  cases i with
  | importing path span target => rfl
  | statement s =>
    have hbound : (c.shift φ).bindStatement source (Scopes.shift φ ⟨imported, globals, none⟩)
        (s.shift (φ.map source)) = _ := bindStatement_shift ⟨imported, globals, none⟩ c s
    simp only [Scopes.shift, Option.map_none] at hbound
    simp only [Item.shift, bindItem, hbound]
  | function g =>
    have hadded (l : List Declaration) :
        (c.shift φ).addAll .empty [globals.shift φ, imported.shift φ] (l.map (·.shift φ)) =
          ((c.addAll .empty [globals, imported] l).1.shift φ,
            (c.addAll .empty [globals, imported] l).2.shift φ) :=
      c.addAll_shift .empty [globals, imported] l
    have hbody (c : Checker) (locals : Scope) :
        (c.shift φ).bindStatements source (Scopes.shift φ ⟨imported, globals, some locals⟩)
          (g.body.map (·.shift (φ.map source))) = _ :=
      bindStatements_shift ⟨imported, globals, some locals⟩ c g.body
    have hparameters : (g.parameters.map (·.shift (φ.map source))).map
        (fun p => declarationOf source p.name p.handle) =
          (g.parameters.map fun p => declarationOf source p.name p.handle).map (·.shift φ) := by
      simp only [List.map_map]
      rfl
    simp only [Scopes.shift, Option.map_some] at hbody
    simp only [Item.shift, Function.shift, bindItem, hparameters, hadded, hbody]

theorem bindItems_shift (imported globals : Scope) (c : Checker) (l : List Item) :
    (c.shift φ).bindItems source (imported.shift φ) (globals.shift φ) (l.map (·.shift (φ.map source))) =
      ((c.bindItems source imported globals l).1.shift φ,
        (c.bindItems source imported globals l).2.map (·.shift (φ.map source))) := by
  induction l generalizing c with
  | nil => rfl
  | cons i rest ih => simp only [List.map_cons, bindItems, bindItem_shift, ih]

end Checker

/-! ## Units -/

theorem SourceFile.declarations_shift (u : SourceFile) :
    (u.shift φ).declarations = u.declarations.map (·.shift φ) := by
  simp only [declarations, shift, List.filterMap_map, List.map_filterMap]
  refine List.filterMap_congr fun i _ => ?_
  cases i with
  | importing path span target => rfl
  | function g => rfl
  | statement s => cases s <;> rfl

/-- The units at other offsets. -/
def shiftUnits (φ : Shift) (units : Table String SourceFile) : Table String SourceFile :=
  units.mapValues fun _ u => u.shift φ

theorem find?_shiftUnits (units : Table String SourceFile) (n : String) :
    (shiftUnits φ units).find? n = (units.find? n).map (·.shift φ) := Table.find?_mapValues _ units n

theorem importedScope_shift (units : Table String SourceFile) (u : SourceFile) :
    importedScope (shiftUnits φ units) (u.shift φ) = (importedScope units u).shift φ := by
  have hfold (l : List (String × Declaration)) (t : Scope) :
      (l.map fun e => (e.1, e.2.shift φ)).foldl (fun t e => t.insert e.1 e.2) (t.shift φ) =
        Scope.shift φ (l.foldl (fun t e => t.insert e.1 e.2) t) := by
    induction l generalizing t with
    | nil => rfl
    | cons e rest ih =>
      rw [List.map_cons, List.foldl_cons, List.foldl_cons, ← ih]
      exact congrArg (List.foldl _ · _) (Table.mapValues_insert ..).symm
  -- Later names replace earlier ones by their spelling alone.
  unfold importedScope Table.ofList
  refine Eq.trans (congrArg (List.foldl _ _) ?_) (hfold _ .empty)
  rw [List.map_flatMap]
  simp only [SourceFile.shift, List.flatMap_map]
  refine List.flatMap_congr fun i _ => ?_
  have hsource : (i.shift (φ.map u.source)).source? = i.source? := by cases i <;> rfl
  rw [hsource, find?_shiftUnits]
  cases units.find? (i.source?.getD "") with
  | none => rfl
  | some other =>
    show (other.shift φ).declarations.map _ = _
    rw [SourceFile.declarations_shift, List.map_map, List.map_map]
    rfl

/-- A unit at other offsets is bound in the same way. -/
theorem SourceFile.bind_shift (units : Table String SourceFile) (u : SourceFile) (c : Checker) :
    (u.shift φ).bind (shiftUnits φ units) (c.shift φ) =
      ((u.bind units c).1.shift φ, (u.bind units c).2.shift φ) := by
  have hadded : (c.shift φ).addAll .empty [] (u.declarations.map (·.shift φ)) =
      ((c.addAll .empty [] u.declarations).1.shift φ,
        (c.addAll .empty [] u.declarations).2.shift φ) := c.addAll_shift .empty [] u.declarations
  simp only [SourceFile.bind, declarations_shift, importedScope_shift, hadded]
  simp only [SourceFile.shift, Checker.bindItems_shift]

theorem bindUnits_shift (units : Table String SourceFile) (c : Checker) (names : List String) :
    bindUnits (shiftUnits φ units) (c.shift φ) names =
      ((bindUnits units c names).1.shift φ, shiftUnits φ (bindUnits units c names).2) := by
  induction names generalizing units c with
  | nil => rfl
  | cons name rest ih =>
    unfold bindUnits
    rw [find?_shiftUnits]
    cases units.find? name with
    | none => exact ih units c
    | some u =>
      simp only [Option.map_some, SourceFile.bind_shift]
      rw [← ih]
      exact congrArg (bindUnits · _ rest) (Table.mapValues_insert ..).symm

end LanguageServer.Toy
