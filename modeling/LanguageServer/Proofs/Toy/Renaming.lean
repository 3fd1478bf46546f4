import LanguageServer.Proofs.Table
import LanguageServer.Proofs.Toy.Gathering
import LanguageServer.Toy.Binding
import Mathlib.Data.List.Forall2

/-!
# Binding with other handles

Handles tell declarations apart and mean nothing else.  So a unit is bound in the same way
when the handles of the sources that it can see are others: the same is found in it, its
uses refer to the same declarations, and these get the same types.

## Main definitions

* `Expr.rename`, `Item.rename`, `SourceFile.rename` — a bound unit with other handles.
* `ScopeAlike`, `ScopesAlike`, `Checker.Alike` — the same but for the handles.

## Main statements

* `alike_bind` — a unit is bound in the same way with other handles.
-/

namespace LanguageServer.Toy

/-! ## Renaming -/

/-- The use with the other handle for its target. -/
def Use.rename (ρ : Int → Int) (u : Use) : Use := { u with target := u.target.map ρ }

/-- The expression with other handles for what its uses refer to. -/
def Expr.rename (ρ : Int → Int) (e : Expr) : Expr := e.mapUses (·.rename ρ)

/-- The bound statement with other handles. -/
def Statement.rename (ρ : Int → Int) : Statement → Statement
  | .expression value span => .expression (value.rename ρ) span
  | .variable v => .variable { v with value := v.value.map (·.rename ρ), handle := ρ v.handle }
  | .assignment target value span => .assignment (target.rename ρ) (value.rename ρ) span
  | .giveBack value span => .giveBack (value.map (·.rename ρ)) span

/-- The bound item with other handles. -/
def Item.rename (ρ : Int → Int) : Item → Item
  | .importing path span source => .importing path span source
  | .function f =>
    .function
      { f with
        parameters := f.parameters.map (·.relabel ρ), body := f.body.map (·.rename ρ)
        handle := ρ f.handle }
  | .statement s => .statement (s.rename ρ)

/-- The bound unit with other handles. -/
def SourceFile.rename (ρ : Int → Int) (u : SourceFile) : SourceFile :=
  { u with items := u.items.map (·.rename ρ) }

/-! ## The tree that the server sees -/

theorem Use.toNode_rename (source : String) (access : Access) (ρ : Int → Int) (u : Use) :
    (u.rename ρ).toNode source access = (u.toNode source access).rename ρ := rfl

mutual

theorem Expr.toNode_rename (source : String) (ρ : Int → Int) : (e : Expr) →
    (e.rename ρ).toNode source = (e.toNode source).rename ρ
  | .number _ => rfl
  | .string _ => rfl
  | .use u => u.toNode_rename source .read ρ
  | .call callee arguments span => by
    rw [Expr.toNode, Node.rename, Node.renameAll, ← Expr.toNodes_rename source ρ arguments]
    rfl
  | .sum operands span => by
    rw [Expr.toNode, Node.rename, ← Expr.toNodes_rename source ρ operands]
    rfl

theorem Expr.toNodes_rename (source : String) (ρ : Int → Int) : (l : List Expr) →
    Expr.toNodes source (Expr.mapUsesAll (·.rename ρ) l) =
      Node.renameAll ρ (Expr.toNodes source l)
  | [] => rfl
  | e :: rest => by
    rw [Expr.toNodes, Node.renameAll, ← Expr.toNode_rename source ρ e,
      ← Expr.toNodes_rename source ρ rest]
    rfl

end

theorem Statement.toNode_rename (source : String) (ρ : Int → Int) (s : Statement) :
    (s.rename ρ).toNode source = (s.toNode source).rename ρ := by
  have hvalue (e : Option Expr) : ((e.map (·.rename ρ)).map (·.toNode source)).toList =
      Node.renameAll ρ (e.map (·.toNode source)).toList := by
    cases e with
    | none => rfl
    | some e => exact congrArg (fun n => [n]) (e.toNode_rename source ρ)
  cases s with
  | expression value span =>
    simp only [rename, toNode, Node.rename, Node.renameAll, value.toNode_rename]
    rfl
  | «variable» v =>
    simp only [rename, toNode, Node.rename, ← hvalue]
    rfl
  | assignment target value span =>
    simp only [rename, toNode, Node.rename, Node.renameAll, value.toNode_rename,
      target.toNode_rename]
    rfl
  | giveBack value span =>
    simp only [rename, toNode, Node.rename, ← hvalue]
    rfl

theorem Item.toNode_rename (source : String) (ρ : Int → Int) (i : Item) :
    (i.rename ρ).toNode source = (i.toNode source).rename ρ := by
  cases i with
  | importing path span target => rfl
  | statement s => exact s.toNode_rename source ρ
  | function f =>
    simp only [rename, toNode, Node.rename, Node.renameAll_eq_map, List.map_append, List.map_map]
    refine congrArg (Node.mk _) (congrArg₂ List.append ?_ ?_)
    · exact List.map_congr_left fun p _ => rfl
    · exact List.map_congr_left fun s _ => s.toNode_rename source ρ

/-- The tree of a unit with other handles. -/
theorem SourceFile.toUnit_rename (ρ : Int → Int) (u : SourceFile) :
    (u.rename ρ).toUnit = u.toUnit.rename ρ := by
  simp only [rename, toUnit, CompiledUnit.rename, Node.rename, Node.renameAll_eq_map, List.map_map]
  refine congrArg (CompiledUnit.mk u.source) (congrArg (Node.mk _) ?_)
  exact List.map_congr_left fun i _ => i.toNode_rename u.source ρ

/-! ## Expressions -/

mutual

theorem Expr.mapUses_mapUses (f g : Use → Use) : (e : Expr) →
    (e.mapUses f).mapUses g = e.mapUses fun u => g (f u)
  | .number _ => rfl
  | .string _ => rfl
  | .use _ => rfl
  | .call callee arguments span => by
    simp only [Expr.mapUses, Expr.mapUsesAll_mapUsesAll f g arguments]
  | .sum operands span => by simp only [Expr.mapUses, Expr.mapUsesAll_mapUsesAll f g operands]

theorem Expr.mapUsesAll_mapUsesAll (f g : Use → Use) : (l : List Expr) →
    Expr.mapUsesAll g (Expr.mapUsesAll f l) = Expr.mapUsesAll (fun u => g (f u)) l
  | [] => rfl
  | e :: rest => by
    simp only [Expr.mapUsesAll, Expr.mapUses_mapUses f g e, Expr.mapUsesAll_mapUsesAll f g rest]

end

mutual

theorem Expr.uses_mapUses (f : Use → Use) : (e : Expr) → (e.mapUses f).uses = e.uses.map f
  | .number _ => rfl
  | .string _ => rfl
  | .use _ => rfl
  | .call callee arguments span => by
    simp only [Expr.mapUses, Expr.uses, Expr.usesAll_mapUsesAll f arguments, List.map_cons]
  | .sum operands span => by
    simp only [Expr.mapUses, Expr.uses, Expr.usesAll_mapUsesAll f operands]

theorem Expr.usesAll_mapUsesAll (f : Use → Use) : (l : List Expr) →
    Expr.usesAll (Expr.mapUsesAll f l) = (Expr.usesAll l).map f
  | [] => rfl
  | e :: rest => by
    simp only [Expr.mapUsesAll, Expr.usesAll, Expr.uses_mapUses f e,
      Expr.usesAll_mapUsesAll f rest, List.map_append]

end

@[simp] theorem Expr.span_rename (ρ : Int → Int) (e : Expr) : (e.rename ρ).span = e.span := by
  cases e <;> rfl

/-- The types of what the uses of an expression refer to are the same. -/
def Types.Agree (ρ : Int → Int) (t t' : Types) (uses : List Use) : Prop :=
  ∀ u ∈ uses, t'.ofUse? (u.rename ρ) = t.ofUse? u

mutual

theorem Types.ofExpr?_rename {ρ : Int → Int} {t t' : Types} : (e : Expr) →
    Types.Agree ρ t t' e.uses → t'.ofExpr? (e.rename ρ) = t.ofExpr? e
  | .number _, _ => rfl
  | .string _, _ => rfl
  | .use u, h => h u (List.mem_singleton_self u)
  | .call _ _ _, _ => rfl
  | .sum operands _, h => congrArg commonType? (Types.ofExprs_rename operands h)

theorem Types.ofExprs_rename {ρ : Int → Int} {t t' : Types} : (l : List Expr) →
    Types.Agree ρ t t' (Expr.usesAll l) →
      Types.ofExprs t' (Expr.mapUsesAll (·.rename ρ) l) = Types.ofExprs t l
  | [], _ => rfl
  | e :: rest, h => congrArg₂ List.cons
      (Types.ofExpr?_rename e fun u hu => h u (List.mem_append_left _ hu))
      (Types.ofExprs_rename rest fun u hu => h u (List.mem_append_right _ hu))

end

/-! ## Scopes -/

section

variable {r : Renaming} {scope scope' : Scope} {scopes scopes' : Scopes} {name : String}

/-- Two scopes declare the same but for the handles, and only what is known. -/
structure ScopeAlike (r : Renaming) (scope scope' : Scope) : Prop where
  find : ∀ name, scope'.find? name = (scope.find? name).map r.declaration
  knows : ∀ name d, scope.find? name = some d → r.Knows d

theorem scopeAlike_empty : ScopeAlike r .empty .empty := ⟨fun _ => rfl, fun _ _ => nofun⟩

theorem ScopeAlike.insert (h : ScopeAlike r scope scope') {d : Declaration} (hd : r.Knows d)
    (name : String) : ScopeAlike r (scope.insert name d) (scope'.insert name (r.declaration d)) where
  find other := by
    rw [Table.find?_insert, Table.find?_insert, h.find]
    split <;> rfl
  knows other d' hfind := by
    rw [Table.find?_insert] at hfind
    split at hfind
    · exact Option.some.inj hfind ▸ hd
    · exact h.knows other d' hfind

/-- Scopes that are made of the same declarations are alike. -/
theorem scopeAlike_ofList {l : List Declaration} (h : ∀ d ∈ l, r.Knows d) :
    ScopeAlike r (Table.ofList (l.map fun d => (d.name, d)))
      (Table.ofList ((l.map r.declaration).map fun d => (d.name, d))) := by
  have hfold : ∀ (l : List Declaration) (scope scope' : Scope), ScopeAlike r scope scope' →
      (∀ d ∈ l, r.Knows d) →
      ScopeAlike r ((l.map fun d => (d.name, d)).foldl (fun t e => t.insert e.1 e.2) scope)
        (((l.map r.declaration).map fun d => (d.name, d)).foldl (fun t e => t.insert e.1 e.2)
          scope') := by
    intro l
    induction l with
    | nil => exact fun _ _ hscope _ => hscope
    | cons d rest ih =>
      intro scope scope' hscope hknown
      exact ih _ _ (hscope.insert (hknown d List.mem_cons_self) d.name) fun d' hd' =>
        hknown d' (List.mem_cons_of_mem _ hd')
  exact hfold l _ _ scopeAlike_empty h

/-- A name means the same in scopes that are alike. -/
theorem findInnermost_alike {l l' : List Scope} (h : List.Forall₂ (ScopeAlike r) l l')
    (name : String) :
    findInnermost name l' = (findInnermost name l).map r.declaration ∧
      ∀ d, findInnermost name l = some d → r.Knows d := by
  induction h with
  | nil => exact ⟨rfl, fun _ => nofun⟩
  | @cons scope scope' rest rest' hscope _ ih =>
    simp only [findInnermost, List.findSome?_cons, hscope.find name]
    cases hfind : scope.find? name with
    | some d => exact ⟨rfl, fun d' hd' => Option.some.inj hd' ▸ hscope.knows name d hfind⟩
    | none => exact ih

/-- Scopes that declare the same but for the handles. -/
structure ScopesAlike (r : Renaming) (scopes scopes' : Scopes) : Prop where
  imported : ScopeAlike r scopes.imported scopes'.imported
  globals : ScopeAlike r scopes.globals scopes'.globals
  locals : Option.Rel (ScopeAlike r) scopes.locals scopes'.locals

theorem ScopesAlike.inward (h : ScopesAlike r scopes scopes') :
    List.Forall₂ (ScopeAlike r) scopes.inward scopes'.inward := by
  have houter : List.Forall₂ (ScopeAlike r) [scopes.globals, scopes.imported]
      [scopes'.globals, scopes'.imported] := .cons h.globals (.cons h.imported .nil)
  have hlocals := h.locals
  unfold Scopes.inward
  cases hl : scopes.locals <;> cases hl' : scopes'.locals <;> rw [hl, hl'] at hlocals <;>
    cases hlocals
  · exact houter
  · next hscope => exact .cons hscope houter

/-- A use refers to the same declaration. -/
theorem ScopesAlike.resolve (h : ScopesAlike r scopes scopes') (u : Use) :
    scopes'.resolve u = (scopes.resolve u).rename r.handle ∧
      ∀ target, (scopes.resolve u).target = some target → r.Covers target := by
  obtain ⟨hfind, hknows⟩ := findInnermost_alike h.inward u.name.text
  refine ⟨?_, fun target htarget => ?_⟩
  · simp only [Scopes.resolve, Use.rename, Scopes.find?, hfind, Option.map_map]
    rfl
  · obtain ⟨d, hd, rfl⟩ := Option.map_eq_some_iff.1 htarget
    exact (hknows d hd).covers

end

/-- A finding in a source that points to no other place. -/
theorem concerns_of_related (r : Renaming) {f : Finding} {s : Span} {source : String}
    (hlocation : f.location = some (s.within source)) (hrelated : f.related = []) :
    r.Concerns source f :=
  ⟨by simp [Finding.liesIn, hlocation, Span.within], by simp [hrelated]⟩

/-- The uses in an expression refer to known declarations, if to any. -/
def Expr.IsCovered (r : Renaming) (e : Expr) : Prop :=
  ∀ u ∈ e.uses, ∀ target, u.target = some target → r.Covers target

/-! ## Checkers -/

namespace Checker

variable {r : Renaming} {source : String} {base base' : List Finding} {c c' : Checker}
  {scope scope' : Scope} {scopes scopes' : Scopes}

/-- Two checkers found the same in a source since they had found something else, and the types of what
is declared are the same. -/
structure Alike (r : Renaming) (source : String) (base base' : List Finding) (c c' : Checker) :
    Prop where
  types : ∀ h, r.Covers h → c'.types.find? (r.handle h) = c.types.find? h
  findings : ∃ found, c.findings = base ++ found ∧ c'.findings = base' ++ found ∧
    ∀ f ∈ found, r.Concerns source f

namespace Alike

theorem reportAll (h : Alike r source base base' c c') {l : List Finding}
    (hl : ∀ f ∈ l, r.Concerns source f) :
    Alike r source base base' (c.reportAll l) (c'.reportAll l) where
  types := h.types
  findings := by
    obtain ⟨found, hfound, hfound', hconcerns⟩ := h.findings
    refine ⟨found ++ l, ?_, ?_, fun f hf => ?_⟩
    · rw [← List.append_assoc, ← hfound]
      rfl
    · rw [← List.append_assoc, ← hfound']
      rfl
    · rcases List.mem_append.1 hf with hf | hf
      · exact hconcerns f hf
      · exact hl f hf

theorem report (h : Alike r source base base' c c') {f : Finding} (hf : r.Concerns source f) :
    Alike r source base base' (c.report f) (c'.report f) :=
  h.reportAll (l := [f]) fun _ hmem => List.mem_singleton.1 hmem ▸ hf

/-- What is declared gets a type. -/
theorem typed (h : Alike r source base base' c c') {handle : Int} (hcovers : r.Covers handle)
    (t : Ty) :
    Alike r source base base' { c with types := c.types.insert handle t }
      { c' with types := c'.types.insert (r.handle handle) t } where
  types other hother := by
    simp only [Table.find?_insert]
    by_cases heq : handle = other
    · simp [heq]
    · rw [if_neg heq, if_neg fun hsame => heq (r.injective hcovers hother hsame)]
      exact h.types other hother
  findings := h.findings

/-- An expression whose uses refer to known declarations has the same type. -/
theorem ofExpr? (h : Alike r source base base' c c') {e : Expr} (he : e.IsCovered r) :
    c'.types.ofExpr? (e.rename r.handle) = c.types.ofExpr? e := by
  refine Types.ofExpr?_rename e fun u hu => ?_
  unfold Types.ofUse? Use.rename
  cases htarget : u.target with
  | none => rfl
  | some target => exact h.types target (he u hu target htarget)

end Alike

/-- A declaration is added to its scope in the same way. -/
theorem alike_add (h : Alike r source base base' c c') (hscope : ScopeAlike r scope scope')
    {outer outer' : List Scope} (houter : List.Forall₂ (ScopeAlike r) outer outer')
    {d : Declaration} (hd : r.Knows d) (hsource : d.location.source = source) :
    Alike r source base base' (c.add d scope outer).1 (c'.add (r.declaration d) scope' outer').1 ∧
      ScopeAlike r (c.add d scope outer).2 (c'.add (r.declaration d) scope' outer').2 := by
  have hlies (severity : Severity) (message : String) (code : Option Int)
      {other : Declaration} (hother : r.Knows other) (place : String) :
      r.Concerns source
        { severity, message, location := some d.location, code
          related := [⟨place, other.location⟩] } :=
    ⟨by simp [Finding.liesIn, hsource], by simpa using hother.near⟩
  obtain ⟨hhidden, hknows⟩ := findInnermost_alike houter d.name
  unfold add
  simp only [show (r.declaration d).name = d.name from rfl, hscope.find d.name, hhidden]
  cases hprevious : scope.find? d.name with
  | some previous =>
    exact ⟨h.report (hlies _ _ _ (hscope.knows _ _ hprevious) _), hscope⟩
  | none =>
    refine ⟨?_, hscope.insert hd d.name⟩
    cases hfind : findInnermost d.name outer with
    | none => exact h
    | some hidden => exact h.report (hlies _ _ _ (hknows _ hfind) _)

/-- Declarations are added to their scope in the same way. -/
theorem alike_addAll (h : Alike r source base base' c c') (hscope : ScopeAlike r scope scope')
    {outer outer' : List Scope} (houter : List.Forall₂ (ScopeAlike r) outer outer')
    {l : List Declaration} (hl : ∀ d ∈ l, r.Knows d ∧ d.location.source = source) :
    Alike r source base base' (c.addAll scope outer l).1
        (c'.addAll scope' outer' (l.map r.declaration)).1 ∧
      ScopeAlike r (c.addAll scope outer l).2 (c'.addAll scope' outer' (l.map r.declaration)).2 := by
  induction l generalizing c c' scope scope' with
  | nil => exact ⟨h, hscope⟩
  | cons d rest ih =>
    obtain ⟨hd, hsource⟩ := hl d List.mem_cons_self
    obtain ⟨hadded, hscope'⟩ := alike_add h hscope houter hd hsource
    exact ih hadded hscope' fun d' hd' => hl d' (List.mem_cons_of_mem _ hd')

/-- The uses of an expression are bound in the same way. -/
theorem alike_bindExpr (h : Alike r source base base' c c') (hs : ScopesAlike r scopes scopes')
    (e : Expr) :
    Alike r source base base' (c.bindExpr source scopes e).1 (c'.bindExpr source scopes' e).1 ∧
      (c'.bindExpr source scopes' e).2 = (c.bindExpr source scopes e).2.rename r.handle ∧
      (c.bindExpr source scopes e).2.IsCovered r := by
  have hbound : e.mapUses scopes'.resolve = (e.mapUses scopes.resolve).rename r.handle := by
    rw [Expr.rename, Expr.mapUses_mapUses]
    exact congrArg (e.mapUses ·) (funext fun u => (hs.resolve u).1)
  have hfound : ((e.mapUses scopes'.resolve).uses.filter (·.target.isNone)).map
      (undeclared source) =
        ((e.mapUses scopes.resolve).uses.filter (·.target.isNone)).map (undeclared source) := by
    rw [hbound, Expr.rename, Expr.uses_mapUses, List.filter_map, List.map_map]
    have hsame : (fun u : Use => u.target.isNone) ∘ (·.rename r.handle) =
        fun u : Use => u.target.isNone := funext fun u => by simp [Use.rename]
    rw [hsame]
    exact List.map_congr_left fun u _ => rfl
  refine ⟨?_, hbound, fun u hu => ?_⟩
  · unfold bindExpr
    simp only [hfound]
    refine h.reportAll fun f hf => ?_
    obtain ⟨u, -, rfl⟩ := List.mem_map.1 hf
    exact concerns_of_related r rfl rfl
  · simp only [bindExpr, Expr.uses_mapUses] at hu
    obtain ⟨u, -, rfl⟩ := List.mem_map.1 hu
    exact (hs.resolve u).2

/-- An expression that may be missing is bound in the same way. -/
theorem alike_bindExpr? (h : Alike r source base base' c c') (hs : ScopesAlike r scopes scopes')
    (e : Option Expr) :
    Alike r source base base' (c.bindExpr? source scopes e).1 (c'.bindExpr? source scopes' e).1 ∧
      (c'.bindExpr? source scopes' e).2 =
        (c.bindExpr? source scopes e).2.map (·.rename r.handle) ∧
      ∀ e' ∈ (c.bindExpr? source scopes e).2, e'.IsCovered r := by
  cases e with
  | none => exact ⟨h, rfl, fun _ => nofun⟩
  | some e =>
    obtain ⟨hc, hbound, hcovers⟩ := alike_bindExpr h hs e
    exact ⟨hc, congrArg some hbound, fun e' he' => Option.mem_some.1 he' ▸ hcovers⟩

/-- A value is checked against a type in the same way. -/
theorem alike_checkAssignable (h : Alike r source base base' c c') {expected expected' : Option Ty}
    (hexpected : expected' = expected) {value value' : Expr} (hvalue : value.IsCovered r)
    (hvalue' : value' = value.rename r.handle) :
    Alike r source base base' (c.checkAssignable source expected value)
      (c'.checkAssignable source expected' value') := by
  subst hexpected hvalue'
  unfold checkAssignable
  rw [h.ofExpr? hvalue]
  cases expected' with
  | none => exact h
  | some expected =>
    cases c.types.ofExpr? value with
    | none => exact h
    | some actual =>
      simp only
      split
      · exact h
      · simp only [typeMismatch, Expr.span_rename]
        exact h.report (concerns_of_related r rfl rfl)

/-- A variable gets its type in the same way. -/
theorem alike_checkVariable (h : Alike r source base base' c c') {v : Variable}
    (hv : r.Covers v.handle)
    (hvalue : ∀ e ∈ v.value, e.IsCovered r) :
    Alike r source base base' (c.checkVariable source v)
      (c'.checkVariable source
        { v with value := v.value.map (·.rename r.handle), handle := r.handle v.handle }) := by
  obtain ⟨name, typeName, value, span, handle⟩ := v
  unfold checkVariable
  cases typeName with
  | none =>
    have hsame : (value.map (·.rename r.handle)).bind c'.types.ofExpr? =
        value.bind c.types.ofExpr? := by
      cases value with
      | none => rfl
      | some e => exact h.ofExpr? (hvalue e rfl)
    simp only [hsame]
    cases value.bind c.types.ofExpr? with
    | none => exact h
    | some t => exact h.typed hv t
  | some typeName =>
    cases hknown : Ty.ofName? typeName.text with
    | none =>
      simp only [hknown]
      exact h.report (concerns_of_related r (s := typeName.span) rfl rfl)
    | some t =>
      simp only [hknown]
      cases value with
      | none => exact h.typed hv t
      | some e => exact alike_checkAssignable (h.typed hv t) rfl (hvalue e rfl) rfl

/-- A variable is added to the local scope in the same way. -/
theorem alike_addLocal (h : Alike r source base base' c c') (hs : ScopesAlike r scopes scopes')
    (hsource : r.Near source) {v v' : Variable} (hv : r.Covers v.handle) (hname : v'.name = v.name)
    (hhandle : v'.handle = r.handle v.handle) :
    Alike r source base base' (c.addLocal source scopes v).1 (c'.addLocal source scopes' v').1 ∧
      ScopesAlike r (c.addLocal source scopes v).2 (c'.addLocal source scopes' v').2 := by
  have hlocals := hs.locals
  unfold addLocal
  rw [hname, hhandle]
  cases hl : scopes.locals <;> cases hl' : scopes'.locals <;> rw [hl, hl'] at hlocals <;>
    cases hlocals
  · exact ⟨h, hs⟩
  · next hscope =>
      obtain ⟨hadded, hscope'⟩ := alike_add h hscope
        (.cons hs.globals (.cons hs.imported .nil)) (d := declarationOf source v.name v.handle)
        ⟨hv, hsource⟩ rfl
      exact ⟨hadded, hs.imported, hs.globals, .some hscope'⟩

/-- A statement is bound in the same way. -/
theorem alike_bindStatement (h : Alike r source base base' c c') (hs : ScopesAlike r scopes scopes')
    (hsource : r.Near source) {s : Statement} (hcovers : ∀ handle ∈ s.handles, r.Covers handle) :
    Alike r source base base' (c.bindStatement source scopes s).1
        (c'.bindStatement source scopes' (s.relabel r.handle)).1 ∧
      ScopesAlike r (c.bindStatement source scopes s).2.1
        (c'.bindStatement source scopes' (s.relabel r.handle)).2.1 ∧
      (c'.bindStatement source scopes' (s.relabel r.handle)).2.2 =
        (c.bindStatement source scopes s).2.2.rename r.handle := by
  cases s with
  | expression value span =>
    obtain ⟨hc, hbound, -⟩ := alike_bindExpr h hs value
    exact ⟨hc, hs, congrArg (Statement.expression · span) hbound⟩
  | «variable» v =>
    have hv : r.Covers v.handle := hcovers _ (List.mem_singleton_self _)
    obtain ⟨hc, hbound, hvalue⟩ := alike_bindExpr? h hs v.value
    obtain ⟨hadded, hs'⟩ := alike_addLocal hc hs hsource
      (v := { v with value := (c.bindExpr? source scopes v.value).2 }) hv
      (show Variable.name
        { v with value := (c'.bindExpr? source scopes' v.value).2, handle := r.handle v.handle } = _
        from rfl) rfl
    have hchecked := alike_checkVariable hadded
      (v := { v with value := (c.bindExpr? source scopes v.value).2 }) hv hvalue
    simp only [← hbound] at hchecked
    exact ⟨hchecked, hs', congrArg
      (fun value => Statement.variable { v with value, handle := r.handle v.handle }) hbound⟩
  | assignment target value span =>
    obtain ⟨hc, hbound, hcovered⟩ := alike_bindExpr h hs (.use target)
    obtain ⟨hc', hbound', hcovered'⟩ := alike_bindExpr hc hs value
    have htarget := (hs.resolve target).1
    have hexpected := (congrArg (Types.ofUse? _) htarget).trans
      (hc'.ofExpr? (e := .use (scopes.resolve target)) hcovered)
    exact ⟨alike_checkAssignable hc' hexpected hcovered' hbound', hs,
      congrArg₂ (Statement.assignment · · span) htarget hbound'⟩
  | giveBack value span =>
    obtain ⟨hc, hbound, -⟩ := alike_bindExpr? h hs value
    exact ⟨hc, hs, congrArg (Statement.giveBack · span) hbound⟩

/-- Statements are bound in the same way. -/
theorem alike_bindStatements (h : Alike r source base base' c c')
    (hs : ScopesAlike r scopes scopes') (hsource : r.Near source) {l : List Statement}
    (hcovers : ∀ handle ∈ l.flatMap Statement.handles, r.Covers handle) :
    Alike r source base base' (c.bindStatements source scopes l).1
        (c'.bindStatements source scopes' (l.map (·.relabel r.handle))).1 ∧
      (c'.bindStatements source scopes' (l.map (·.relabel r.handle))).2 =
        (c.bindStatements source scopes l).2.map (·.rename r.handle) := by
  induction l generalizing c c' scopes scopes' with
  | nil => exact ⟨h, rfl⟩
  | cons s rest ih =>
    simp only [List.flatMap_cons, List.mem_append] at hcovers
    obtain ⟨hc, hs', hbound⟩ := alike_bindStatement h hs hsource fun handle hmem =>
      hcovers handle (.inl hmem)
    obtain ⟨hrest, hbounds⟩ := ih hc hs' fun handle hmem => hcovers handle (.inr hmem)
    exact ⟨hrest, congrArg₂ List.cons hbound hbounds⟩

/-- An item is bound in the same way. -/
theorem alike_bindItem (h : Alike r source base base' c c') {imported imported' globals globals' : Scope}
    (himported : ScopeAlike r imported imported') (hglobals : ScopeAlike r globals globals')
    (hsource : r.Near source) {i : Item} (hcovers : ∀ handle ∈ i.handles, r.Covers handle) :
    Alike r source base base' (c.bindItem source imported globals i).1
        (c'.bindItem source imported' globals' (i.relabel r.handle)).1 ∧
      (c'.bindItem source imported' globals' (i.relabel r.handle)).2 =
        (c.bindItem source imported globals i).2.rename r.handle := by
  cases i with
  | importing path span target => exact ⟨h, rfl⟩
  | statement s =>
    have hscopes : ScopesAlike r ⟨imported, globals, none⟩ ⟨imported', globals', none⟩ :=
      ⟨himported, hglobals, .none⟩
    obtain ⟨hc, -, hbound⟩ := alike_bindStatement h hscopes hsource hcovers
    exact ⟨hc, congrArg Item.statement hbound⟩
  | function f =>
    simp only [Item.handles, List.cons_append, List.mem_cons, List.mem_append, List.mem_map]
      at hcovers
    have hdeclared : (f.parameters.map (·.relabel r.handle)).map
        (fun p => declarationOf source p.name p.handle) =
          (f.parameters.map fun p => declarationOf source p.name p.handle).map r.declaration := by
      rw [List.map_map, List.map_map]
      rfl
    obtain ⟨hc, hlocals⟩ := alike_addAll h scopeAlike_empty (.cons hglobals (.cons himported .nil))
      (l := f.parameters.map fun p => declarationOf source p.name p.handle) fun d hd => by
        obtain ⟨p, hp, rfl⟩ := List.mem_map.1 hd
        exact ⟨⟨hcovers _ (.inr (.inl ⟨p, hp, rfl⟩)), hsource⟩, rfl⟩
    rw [← hdeclared] at hc hlocals
    have hscopes : ScopesAlike r ⟨imported, globals, some _⟩ ⟨imported', globals', some _⟩ :=
      ⟨himported, hglobals, .some hlocals⟩
    obtain ⟨hbody, hbound⟩ := alike_bindStatements hc hscopes hsource (l := f.body)
      fun handle hmem => hcovers handle (.inr (.inr hmem))
    exact ⟨hbody, congrArg (fun body => Item.function
      { f with
        parameters := f.parameters.map (·.relabel r.handle), body, handle := r.handle f.handle })
      hbound⟩

/-- Items are bound in the same way. -/
theorem alike_bindItems (h : Alike r source base base' c c')
    {imported imported' globals globals' : Scope}
    (himported : ScopeAlike r imported imported') (hglobals : ScopeAlike r globals globals')
    (hsource : r.Near source) {l : List Item}
    (hcovers : ∀ handle ∈ l.flatMap Item.handles, r.Covers handle) :
    Alike r source base base' (c.bindItems source imported globals l).1
        (c'.bindItems source imported' globals' (l.map (·.relabel r.handle))).1 ∧
      (c'.bindItems source imported' globals' (l.map (·.relabel r.handle))).2 =
        (c.bindItems source imported globals l).2.map (·.rename r.handle) := by
  induction l generalizing c c' with
  | nil => exact ⟨h, rfl⟩
  | cons i rest ih =>
    simp only [List.flatMap_cons, List.mem_append] at hcovers
    obtain ⟨hc, hbound⟩ := alike_bindItem h himported hglobals hsource fun handle hmem =>
      hcovers handle (.inl hmem)
    obtain ⟨hrest, hbounds⟩ := ih hc fun handle hmem => hcovers handle (.inr hmem)
    exact ⟨hrest, congrArg₂ List.cons hbound hbounds⟩

end Checker

/-! ## Units -/

section

variable {r : Renaming} {units units' : Table String SourceFile} {u : SourceFile}

theorem declares?_relabel (ρ : Int → Int) (i : Item) :
    (i.relabel ρ).declares? = i.declares?.map fun d => (d.1, ρ d.2) := by
  cases i with
  | importing path span source => rfl
  | function f => rfl
  | statement s => cases s <;> rfl

theorem SourceFile.declarations_relabel (r : Renaming) (u : SourceFile) :
    (u.relabel r.handle).declarations = u.declarations.map r.declaration := by
  simp only [declarations, relabel, List.filterMap_map, List.map_filterMap]
  refine List.filterMap_congr fun i _ => ?_
  simp only [Function.comp_apply, declares?_relabel, Option.map_map]
  rfl

theorem mem_handles_of_declares? {i : Item} {d : Name × Int} (h : i.declares? = some d) :
    d.2 ∈ i.handles := by
  cases i with
  | importing path span source => cases h
  | function f =>
    obtain rfl := Option.some.inj h
    exact List.mem_cons_self
  | statement s =>
    cases s with
    | «variable» v =>
      obtain rfl := Option.some.inj h
      exact List.mem_cons_self
    | _ => cases h

/-- What a unit declares at its top level is known if its handles are. -/
theorem SourceFile.knows_declarations (hnear : r.Near u.source)
    (hcovers : ∀ handle ∈ u.handles, r.Covers handle) :
    ∀ d ∈ u.declarations, r.Knows d ∧ d.location.source = u.source := by
  intro d hd
  obtain ⟨i, hi, hdeclares⟩ := List.mem_filterMap.1 hd
  obtain ⟨x, hx, rfl⟩ := Option.map_eq_some_iff.1 hdeclares
  exact ⟨⟨hcovers _ (List.mem_flatMap.2 ⟨i, hi, mem_handles_of_declares? hx⟩), hnear⟩, rfl⟩

/-- The name under which an item looks for another unit. -/
def Item.key (i : Item) : String := i.source?.getD ""

/-- The declarations that the imports of a unit bring. -/
def SourceFile.brought (units : Table String SourceFile) (u : SourceFile) : List Declaration :=
  u.items.flatMap fun i => ((units.find? i.key).map (·.declarations)).getD []

theorem importedScope_eq (units : Table String SourceFile) (u : SourceFile) :
    importedScope units u = Table.ofList ((u.brought units).map fun d => (d.name, d)) := by
  unfold importedScope SourceFile.brought
  rw [List.map_flatMap]
  refine congrArg Table.ofList (congrArg (List.flatMap · u.items) (funext fun i => ?_))
  unfold Item.key
  cases units.find? (i.source?.getD "") <;> rfl

/-- A unit sees the same declarations if the units that it looks for declare the same. -/
theorem importedScope_alike
    (hunits : ∀ i ∈ u.items, (units'.find? i.key).map (·.declarations) =
      (units.find? i.key).map (·.declarations.map r.declaration))
    (hknows : ∀ i ∈ u.items, ∀ other, units.find? i.key = some other →
      ∀ d ∈ other.declarations, r.Knows d) :
    ScopeAlike r (importedScope units u) (importedScope units' (u.relabel r.handle)) := by
  have hbrought : (u.relabel r.handle).brought units' = (u.brought units).map r.declaration := by
    simp only [SourceFile.brought, SourceFile.relabel, List.flatMap_map, List.map_flatMap]
    refine List.flatMap_congr fun i hi => ?_
    simp only [Item.key, Item.source?_relabel]
    rw [show (i.source?.getD "") = i.key from rfl, hunits i hi]
    cases units.find? i.key <;> rfl
  rw [importedScope_eq, importedScope_eq, hbrought]
  refine scopeAlike_ofList fun d hd => ?_
  obtain ⟨i, hi, hmem⟩ := List.mem_flatMap.1 hd
  cases hother : units.find? i.key with
  | none => simp [hother] at hmem
  | some other => exact hknows i hi other hother d (by simpa [hother] using hmem)

/-- A unit is bound in the same way with other handles, if it sees the same declarations. -/
theorem alike_bind {base base' : List Finding} {c c' : Checker}
    (h : Checker.Alike r u.source base base' c c')
    (himported : ScopeAlike r (importedScope units u) (importedScope units' (u.relabel r.handle)))
    (hnear : r.Near u.source) (hcovers : ∀ handle ∈ u.handles, r.Covers handle) :
    Checker.Alike r u.source base base' (u.bind units c).1 ((u.relabel r.handle).bind units' c').1 ∧
      ((u.relabel r.handle).bind units' c').2 = (u.bind units c).2.rename r.handle := by
  obtain ⟨hdeclared, hglobals⟩ := Checker.alike_addAll h scopeAlike_empty .nil
    (u.knows_declarations hnear hcovers)
  rw [← u.declarations_relabel] at hdeclared hglobals
  obtain ⟨hc, hbound⟩ := Checker.alike_bindItems hdeclared himported hglobals hnear hcovers
  exact ⟨hc, congrArg (fun items => { u with items }) hbound⟩

end

end LanguageServer.Toy
