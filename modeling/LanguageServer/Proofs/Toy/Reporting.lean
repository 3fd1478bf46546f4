import LanguageServer.Proofs.Toy.Locality
import LanguageServer.Proofs.Toy.Uses

/-!
# Which names are reported

While units are bound, a use that refers to nothing is reported, once and in its place.  Nothing
else is reported in the same words, so the reports in these words are the unbound uses of the units,
in order.

## Main definitions

* `Finding.isUndeclared` — a finding is worded like that for a use that refers to nothing.
* `Checker.Reports` — of some uses, those that refer to nothing are reported.

## Main statements

* `Checker.reports_bindStatement` — what is reported of a statement.
* `filter_findings_bindEach` — what is reported of units that are bound one after the other.
-/

namespace LanguageServer

/-- Whether a finding is worded like that for a use that refers to nothing. -/
def Finding.isUndeclared (f : Finding) : Bool := f.message == "Undeclared identifier."

namespace Toy

variable {source : String} {scopes : Scopes} {c c' c'' : Checker} {uses uses' : List Use}

/-! ## Wordings -/

/-- The findings for the uses that refer to nothing. -/
def unbound (source : String) (uses : List Use) : List Finding :=
  (uses.filter (·.target.isNone)).map (undeclared source)

theorem unbound_append (uses uses' : List Use) :
    unbound source (uses ++ uses') = unbound source uses ++ unbound source uses' := by
  simp [unbound]

/-- Nodes are reported one after the other. -/
theorem unbound_map_use (l : List Node) :
    unbound source (l.map Node.use) = l.flatMap fun m => unbound source [m.use] := by
  induction l with
  | nil => rfl
  | cons m rest ih => rw [List.flatMap_cons, ← ih, ← unbound_append, List.map_cons]; rfl

theorem isUndeclared_of_mem_unbound {f : Finding} (h : f ∈ unbound source uses) :
    f.isUndeclared = true := by
  obtain ⟨u, -, rfl⟩ := List.mem_map.1 h
  rfl

/-- A type mismatch is worded in another way. -/
theorem isUndeclared_typeMismatch (actual expected : Ty) (value : Expr) :
    (typeMismatch source actual expected value).isUndeclared = false := by
  cases actual <;> cases expected <;> simp [typeMismatch, Finding.isUndeclared, Ty.name]

/-- Syntax errors are worded in other ways. -/
theorem isUndeclared_finding (e : SyntaxError) : (e.finding source).isUndeclared = false := by
  refine beq_eq_false_iff_ne.2 fun heq => ?_
  have hchars := congrArg String.toList heq
  obtain ⟨problem, token⟩ := e
  cases problem <;> simp [SyntaxError.finding, SyntaxError.message] at hchars

/-! ## Checking -/

namespace Checker

/-- Of some uses, those that refer to nothing are reported. -/
def Reports (source : String) (uses : List Use) (c c' : Checker) : Prop :=
  c'.findings.filter Finding.isUndeclared =
    c.findings.filter Finding.isUndeclared ++ unbound source uses

namespace Reports

theorem refl (c : Checker) : Reports source [] c c := (List.append_nil _).symm

theorem trans (h : Reports source uses c c') (h' : Reports source uses' c' c'') :
    Reports source (uses ++ uses') c c'' := by
  unfold Reports at *
  rw [h', h, List.append_assoc, unbound_append]

/-- What is reported on the way in other words does not matter. -/
theorem before (h : Reports source [] c c') (h' : Reports source uses c' c'') :
    Reports source uses c c'' := h.trans h'

theorem behind (h : Reports source uses c c') (h' : Reports source [] c' c'') :
    Reports source uses c c'' := List.append_nil uses ▸ h.trans h'

theorem report (c : Checker) {f : Finding} (hf : f.isUndeclared = false) :
    Reports source [] c (c.report f) := by
  simp [Reports, Checker.report, hf, unbound]

end Reports

theorem reports_add (c : Checker) (d : Declaration) (scope : Scope) (outer : List Scope) :
    Reports source [] c (c.add d scope outer).1 := by
  unfold add
  split
  · exact .report c rfl
  · cases findInnermost d.name outer with
    | none => exact .refl c
    | some hidden => exact .report c rfl

theorem reports_addAll (c : Checker) (scope : Scope) (outer : List Scope) (l : List Declaration) :
    Reports source [] c (c.addAll scope outer l).1 := by
  induction l generalizing c scope with
  | nil => exact .refl c
  | cons d rest ih => exact (reports_add c d scope outer).before (ih _ _)

theorem reports_addLocal (scopes : Scopes) (c : Checker) (v : Variable) :
    Reports source [] c (c.addLocal source scopes v).1 := by
  unfold addLocal
  split
  · exact .refl c
  · exact reports_add c _ _ _

theorem reports_bindExpr (scopes : Scopes) (c : Checker) (e : Expr) :
    Reports source (c.bindExpr source scopes e).2.uses c (c.bindExpr source scopes e).1 := by
  have hall : ∀ f ∈ unbound source (e.mapUses scopes.resolve).uses, f.isUndeclared = true :=
    fun f hf => isUndeclared_of_mem_unbound hf
  have hself := List.filter_eq_self.2 hall
  exact (List.filter_append ..).trans (congrArg _ hself)

theorem reports_bindExpr? (scopes : Scopes) (c : Checker) (e : Option Expr) :
    Reports source (Expr.usesIn (c.bindExpr? source scopes e).2) c
      (c.bindExpr? source scopes e).1 := by
  cases e with
  | none => exact .refl c
  | some e => exact reports_bindExpr scopes c e

theorem reports_checkAssignable (c : Checker) (expected : Option Ty) (value : Expr) :
    Reports source [] c (c.checkAssignable source expected value) := by
  unfold checkAssignable
  split
  · split
    · exact .refl c
    · exact .report c (isUndeclared_typeMismatch _ _ _)
  · exact .refl c

theorem reports_checkVariable (c : Checker) (v : Variable) :
    Reports source [] c (c.checkVariable source v) := by
  unfold checkVariable
  split
  · split <;> exact .refl c
  · split
    · exact .report c rfl
    · simp only
      split
      · exact .refl c
      · exact reports_checkAssignable _ _ _

/-- Of a statement, the uses that refer to nothing are reported. -/
theorem reports_bindStatement (scopes : Scopes) (c : Checker) (s : Statement) :
    Reports source (c.bindStatement source scopes s).2.2.uses c
      (c.bindStatement source scopes s).1 := by
  cases s with
  | expression value span => exact reports_bindExpr scopes c value
  | «variable» v =>
    exact ((reports_bindExpr? scopes c v.value).behind (reports_addLocal scopes _ _)).behind
      (reports_checkVariable _ _)
  | assignment target value span =>
    exact ((reports_bindExpr scopes c (.use target)).trans (reports_bindExpr scopes _ value)).behind
      (reports_checkAssignable _ _ _)
  | giveBack value span => exact reports_bindExpr? scopes c value

theorem reports_bindStatements (scopes : Scopes) (c : Checker) (l : List Statement) :
    Reports source ((c.bindStatements source scopes l).2.flatMap Statement.uses) c
      (c.bindStatements source scopes l).1 := by
  induction l generalizing scopes c with
  | nil => exact .refl c
  | cons s rest ih => exact (reports_bindStatement scopes c s).trans (ih _ _)

theorem reports_bindItem (imported globals : Scope) (c : Checker) (i : Item) :
    Reports source (c.bindItem source imported globals i).2.uses c
      (c.bindItem source imported globals i).1 := by
  cases i with
  | importing path span target => exact .refl c
  | statement s => exact reports_bindStatement _ c s
  | function f => exact (reports_addAll c _ _ _).before (reports_bindStatements _ _ f.body)

theorem reports_bindItems (imported globals : Scope) (c : Checker) (l : List Item) :
    Reports source ((c.bindItems source imported globals l).2.flatMap Item.uses) c
      (c.bindItems source imported globals l).1 := by
  induction l generalizing c with
  | nil => exact .refl c
  | cons i rest ih => exact (reports_bindItem imported globals c i).trans (ih _)

end Checker

/-! ## Units -/

/-- Of a unit, the uses that refer to nothing are reported. -/
theorem reports_bind (units : Table String SourceFile) (u : SourceFile) (c : Checker) :
    Checker.Reports u.source (u.bind units c).2.uses c (u.bind units c).1 :=
  (Checker.reports_addAll c _ _ _).before (Checker.reports_bindItems _ _ _ u.items)

/-- Of units that are bound one after the other, the uses that refer to nothing are reported. -/
theorem filter_findings_bindEach (units : Table String SourceFile) (c : Checker)
    (names : List String) :
    (bindEach units c names).1.findings.filter Finding.isUndeclared =
      c.findings.filter Finding.isUndeclared ++
        (bindEach units c names).2.flatMap fun e => unbound e.2.source e.2.uses := by
  induction names generalizing c with
  | nil => exact (List.append_nil _).symm
  | cons name rest ih =>
    cases hu : units.find? name with
    | none => rw [bindEach_of_none hu, ih]
    | some u =>
      rw [bindEach_of_some hu]
      simp only
      rw [ih, reports_bind units u c, List.append_assoc, List.flatMap_cons]
      rfl

end Toy

end LanguageServer
