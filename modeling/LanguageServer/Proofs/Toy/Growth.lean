import LanguageServer.Proofs.Toy.Renaming

/-!
# What binding a unit adds

Binding a unit adds types for what the unit itself declares, and findings that lie in it.
Types and findings of other units stay as they are.

## Main definitions

* `Checker.Grows` — types of certain handles and findings in one source are added.

## Main statements

* `grows_bind` — what binding a unit adds.
-/

namespace LanguageServer.Toy

namespace Checker

variable {source : String} {own : Int → Prop} {c c' c'' : Checker} {scopes : Scopes}

/-- Types of certain handles, and findings in a source, are added. -/
structure Grows (source : String) (own : Int → Prop) (c c' : Checker) : Prop where
  types : ∀ h, ¬ own h → c'.types.find? h = c.types.find? h
  findings : ∃ found, c'.findings = c.findings ++ found ∧ ∀ f ∈ found, f.liesIn source = true

namespace Grows

theorem refl (c : Checker) : Grows source own c c := ⟨fun _ _ => rfl, [], by simp⟩

theorem trans (h : Grows source own c c') (h' : Grows source own c' c'') :
    Grows source own c c'' where
  types handle hown := (h'.types handle hown).trans (h.types handle hown)
  findings := by
    obtain ⟨found, hfound, hlies⟩ := h.findings
    obtain ⟨found', hfound', hlies'⟩ := h'.findings
    refine ⟨found ++ found', by rw [hfound', hfound, List.append_assoc], fun f hf => ?_⟩
    exact (List.mem_append.1 hf).elim (hlies f) (hlies' f)

theorem reportAll (c : Checker) {l : List Finding} (hl : ∀ f ∈ l, f.liesIn source = true) :
    Grows source own c (c.reportAll l) := ⟨fun _ _ => rfl, l, rfl, hl⟩

theorem report (c : Checker) {f : Finding} (hf : f.liesIn source = true) :
    Grows source own c (c.report f) :=
  reportAll c (l := [f]) fun _ hmem => List.mem_singleton.1 hmem ▸ hf

theorem typed (c : Checker) {handle : Int} (hown : own handle) (t : Ty) :
    Grows source own c { c with types := c.types.insert handle t } where
  types other hother := by
    have hne : handle ≠ other := fun heq => hother (heq ▸ hown)
    rw [Table.find?_insert, if_neg hne]
  findings := ⟨[], by simp⟩

end Grows

theorem liesIn_of_location {f : Finding} {l : SourceLocation} (h : f.location = some l)
    (hsource : l.source = source) : f.liesIn source = true := by
  simp [Finding.liesIn, h, hsource]

theorem grows_add (c : Checker) {d : Declaration} (hd : d.location.source = source) (scope : Scope)
    (outer : List Scope) : Grows source own c (c.add d scope outer).1 := by
  unfold add
  split
  · exact .report c (liesIn_of_location rfl hd)
  · cases findInnermost d.name outer with
    | none => exact .refl c
    | some hidden => exact .report c (liesIn_of_location rfl hd)

theorem grows_addAll (c : Checker) {l : List Declaration}
    (hl : ∀ d ∈ l, d.location.source = source) (scope : Scope) (outer : List Scope) :
    Grows source own c (c.addAll scope outer l).1 := by
  induction l generalizing c scope with
  | nil => exact .refl c
  | cons d rest ih =>
    exact (grows_add c (hl d List.mem_cons_self) scope outer).trans
      (ih _ (fun d' hd' => hl d' (List.mem_cons_of_mem _ hd')) _)

theorem grows_bindExpr (scopes : Scopes) (c : Checker) (e : Expr) :
    Grows source own c (c.bindExpr source scopes e).1 := by
  refine .reportAll c fun f hf => ?_
  obtain ⟨u, -, rfl⟩ := List.mem_map.1 hf
  exact liesIn_of_location rfl rfl

theorem grows_bindExpr? (scopes : Scopes) (c : Checker) (e : Option Expr) :
    Grows source own c (c.bindExpr? source scopes e).1 := by
  cases e with
  | none => exact .refl c
  | some e => exact grows_bindExpr scopes c e

theorem grows_checkAssignable (c : Checker) (expected : Option Ty) (value : Expr) :
    Grows source own c (c.checkAssignable source expected value) := by
  unfold checkAssignable
  split
  · split
    · exact .refl c
    · exact .report c (liesIn_of_location rfl rfl)
  · exact .refl c

theorem grows_checkVariable (c : Checker) {v : Variable} (hv : own v.handle) :
    Grows source own c (c.checkVariable source v) := by
  unfold checkVariable
  split
  · split
    · exact .typed c hv _
    · exact .refl c
  · split
    · exact .report c (liesIn_of_location rfl rfl)
    · simp only
      split
      · exact .typed c hv _
      · exact (Grows.typed c hv _).trans (grows_checkAssignable _ _ _)

theorem grows_addLocal (scopes : Scopes) (c : Checker) (v : Variable) :
    Grows source own c (c.addLocal source scopes v).1 := by
  unfold addLocal
  split
  · exact .refl c
  · exact grows_add c (d := declarationOf source v.name v.handle) rfl _ _

theorem grows_bindStatement (scopes : Scopes) (c : Checker) {s : Statement}
    (hs : ∀ handle ∈ s.handles, own handle) :
    Grows source own c (c.bindStatement source scopes s).1 := by
  cases s with
  | expression value span => exact grows_bindExpr scopes c value
  | «variable» v =>
    exact ((grows_bindExpr? scopes c v.value).trans (grows_addLocal scopes _ _)).trans
      (grows_checkVariable _ (v := { v with value := (c.bindExpr? source scopes v.value).2 })
        (hs _ (List.mem_singleton_self _)))
  | assignment target value span =>
    exact ((grows_bindExpr scopes c _).trans (grows_bindExpr scopes _ value)).trans
      (grows_checkAssignable _ _ _)
  | giveBack value span => exact grows_bindExpr? scopes c value

theorem grows_bindStatements (scopes : Scopes) (c : Checker) {l : List Statement}
    (hl : ∀ handle ∈ l.flatMap Statement.handles, own handle) :
    Grows source own c (c.bindStatements source scopes l).1 := by
  induction l generalizing scopes c with
  | nil => exact .refl c
  | cons s rest ih =>
    simp only [List.flatMap_cons, List.mem_append] at hl
    exact (grows_bindStatement scopes c fun handle hmem => hl handle (.inl hmem)).trans
      (ih _ _ fun handle hmem => hl handle (.inr hmem))

theorem grows_bindItem (imported globals : Scope) (c : Checker) {i : Item}
    (hi : ∀ handle ∈ i.handles, own handle) :
    Grows source own c (c.bindItem source imported globals i).1 := by
  cases i with
  | importing path span target => exact .refl c
  | statement s => exact grows_bindStatement _ c hi
  | function f =>
    refine (grows_addAll c (fun d hd => ?_) _ _).trans
      (grows_bindStatements _ _ fun handle hmem => hi handle ?_)
    · obtain ⟨p, -, rfl⟩ := List.mem_map.1 hd
      rfl
    · simp [Item.handles, hmem]

theorem grows_bindItems (imported globals : Scope) (c : Checker) {l : List Item}
    (hl : ∀ handle ∈ l.flatMap Item.handles, own handle) :
    Grows source own c (c.bindItems source imported globals l).1 := by
  induction l generalizing c with
  | nil => exact .refl c
  | cons i rest ih =>
    simp only [List.flatMap_cons, List.mem_append] at hl
    exact (grows_bindItem imported globals c fun handle hmem => hl handle (.inl hmem)).trans
      (ih _ fun handle hmem => hl handle (.inr hmem))

end Checker

/-- Binding a unit adds types for what it declares, and findings that lie in it. -/
theorem grows_bind (units : Table String SourceFile) (u : SourceFile) (c : Checker) :
    Checker.Grows u.source (· ∈ u.handles) c (u.bind units c).1 := by
  refine (Checker.grows_addAll c (fun d hd => ?_) _ _).trans
    (Checker.grows_bindItems _ _ _ fun _ hmem => hmem)
  obtain ⟨i, -, hdeclares⟩ := List.mem_filterMap.1 hd
  obtain ⟨x, -, rfl⟩ := Option.map_eq_some_iff.1 hdeclares
  rfl

end LanguageServer.Toy
