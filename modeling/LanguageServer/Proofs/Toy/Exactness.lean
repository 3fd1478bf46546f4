import LanguageServer.Proofs.Toy.Reporting
import LanguageServer.Proofs.Toy.Scoping
import LanguageServer.Proofs.Toy.WellFormed

/-!
# Names are bound by the rule of scopes

What an identifier refers to can be read off the trees of a program: the parameters and variables
of its function that stand before it come first, then what its unit declares, then what the imports
of the unit declare.  Whatever a compilation is given and however its questions are answered, the
identifiers of the program refer to what this rule says, and those that refer to nothing are
reported, each once.

## Main definitions

* `Node.localsBefore` — the declarations of a function that stand before a node in it.
* `Program.meaning?` — what an identifier means by the rule of scopes.
* `Program.IsBound` — the identifiers refer to what they mean, and the others are reported.

## Main statements

* `isBound_compile` — a compilation ends with a program whose names are bound.
-/

namespace LanguageServer

open Toy

/-! ## The rule of scopes -/

/-- The handle that the first of some nodes declares under the name of a node. -/
def Node.handleAmong (m : Node) (l : List Node) : Option Int :=
  l.findSome? fun n => if n.label.name = m.label.name then n.label.declares else none

/-- Whether a node is a function that another node lies in. -/
def Node.isFunctionAround (m n : Node) : Bool :=
  n.kind == "FunctionDefinition" && n.location.start ≤ m.location.start &&
    m.location.stop ≤ n.location.stop

/-- What stands in the function around a node and before the node. -/
def Node.localsBefore (root m : Node) : List Node :=
  (root.children.filter m.isFunctionAround).flatMap fun f =>
    f.children.filter fun n => n.location.stop ≤ m.location.start

/-- What an identifier means: the first parameter or variable of its function before it, else the
first declaration at the top level of its unit, else the last one at the top level of the last
imported unit that has one. -/
def Program.meaning? (p : Program) (u : CompiledUnit) (m : Node) : Option Int :=
  ((m.handleAmong (u.root.localsBefore m)).or (m.handleAmong u.root.children)).or <|
    u.imports.reverse.findSome? fun s =>
      (p.units.find? s).bind fun v => m.handleAmong v.root.children.reverse

/-- Whether a finding is the error for an identifier in a place that refers to nothing. -/
def Finding.isUndeclaredAt (l : SourceLocation) (f : Finding) : Bool :=
  f.isUndeclared && f.severity == .error && f.location == some l

/-- A node of a unit of a program is an identifier. -/
structure Program.HasIdentifier (p : Program) (u : CompiledUnit) (m : Node) : Prop where
  unit : ∃ name, p.units.find? name = some u
  mem : m ∈ u.root.preorder
  kind : m.kind = "Identifier"

/-- Identifiers refer to what they mean, which has their name.  In the place of an identifier that
refers to nothing one error says so, in other places none does. -/
structure Program.IsBound (p : Program) : Prop where
  meaning : ∀ u m, p.HasIdentifier u m → m.label.references = p.meaning? u m
  named : ∀ u m, p.HasIdentifier u m → ∀ handle, m.label.references = some handle →
    ∃ d, p.declarations.find? handle = some d ∧ m.label.name = some d.name
  reported : ∀ u m, p.HasIdentifier u m → p.findings.countP (·.isUndeclaredAt m.location) =
    if m.label.references = none then 1 else 0
  grounded : ∀ f ∈ p.findings, f.isUndeclared = true → ∃ u m, p.HasIdentifier u m ∧
    m.label.references = none ∧ f.isUndeclaredAt m.location = true

namespace Toy

/-! ## What nodes declare -/

variable {source name : String} {m : Node}

theorem handleAmong_append (m : Node) (l l' : List Node) :
    m.handleAmong (l ++ l') = (m.handleAmong l).or (m.handleAmong l') := List.findSome?_append

/-- Nodes that declare what is declared are looked through like the declarations. -/
theorem handleAmong_map {α : Type} {node : α → Node} (declared : α → Option Declaration)
    (hname : m.label.name = some name)
    (h : ∀ a, (if (node a).label.name = some name then (node a).label.declares else none) =
      (declared a).bind fun d => if d.name = name then some d.handle else none) (l : List α) :
    m.handleAmong (l.map node) = (firstNamed name (l.filterMap declared)).map (·.handle) := by
  induction l with
  | nil => rfl
  | cons a rest ih =>
    have hfirst := h a
    unfold Node.handleAmong at ih ⊢
    rw [hname] at ih ⊢
    rw [List.map_cons, List.findSome?_cons, List.filterMap_cons, hfirst]
    cases hdeclared : declared a with
    | none => exact ih
    | some d =>
      by_cases heq : d.name = name
      · simp [heq, firstNamed]
      · simpa [heq, firstNamed] using ih

theorem handleAmong_parameters (hname : m.label.name = some name) (l : List Parameter) :
    m.handleAmong (l.map (·.toNode source)) =
      (firstNamed name (l.map fun p => declarationOf source p.name p.handle)).map (·.handle) := by
  rw [handleAmong_map (fun p => some (declarationOf source p.name p.handle)) hname (fun p => ?_) l,
    ← List.filterMap_eq_map]
  · rfl
  · simp [Parameter.toNode, declarationOf]

theorem handleAmong_statements (hname : m.label.name = some name) (l : List Statement) :
    m.handleAmong (l.map (·.toNode source)) =
      (firstNamed name (l.filterMap (·.declaration? source))).map (·.handle) := by
  refine handleAmong_map _ hname (fun s => ?_) l
  cases s <;> simp [Statement.toNode, Statement.declaration?, Item.declares?, declarationOf]

theorem handleAmong_items (hname : m.label.name = some name) (l : List Item) :
    m.handleAmong (l.map (·.toNode source)) = (firstNamed name (l.filterMap fun i =>
      i.declares?.map fun d => declarationOf source d.1 d.2)).map (·.handle) := by
  refine handleAmong_map _ hname (fun i => ?_) l
  cases i with
  | statement s => cases s <;> simp [Item.toNode, Statement.toNode, Item.declares?, declarationOf]
  | _ => simp [Item.toNode, Item.declares?, declarationOf]

/-! ## Where declarations stand -/

section

variable {length : Nat} {n : Node} {before behind : List Node}

/-- The children before the one that a node lies in are those that end before it. -/
theorem filter_before (h : ∀ k ∈ n.preorder, k.IsLaidOut source length) {part : Node}
    (hchildren : n.children = before ++ part :: behind) (hm : m ∈ part.preorder) :
    n.children.filter (fun k => k.location.stop ≤ m.location.start) = before := by
  have hself := h n (mem_preorder.2 (.inl rfl))
  have hpart : part ∈ n.children := by simp [hchildren]
  have hinside := encloses_of_mem part (hself.filled part hpart)
    (fun k hk => h k (mem_preorder.2 (.inr ⟨part, hpart, hk⟩))) m hm
  have hapart := hself.apart
  rw [hchildren, List.pairwise_append] at hapart
  obtain ⟨-, hrest, hfirst⟩ := hapart
  have hlater := (List.pairwise_cons.1 hrest).1
  have hfilled := hself.filled
  rw [hchildren] at hfilled ⊢
  have hbefore : ∀ k ∈ before, k.location.stop ≤ m.location.start := fun k hk =>
    Int.le_trans (hfirst k hk part List.mem_cons_self) hinside.start
  have hnot : ∀ k ∈ part :: behind, ¬ k.location.stop ≤ m.location.start := by
    intro k hk
    have hspan := hfilled k (List.mem_append_right _ hk)
    have := hinside.filled
    have := hinside.stop
    rcases List.mem_cons.1 hk with rfl | hk
    · omega
    · have := hlater k hk
      omega
  rw [List.filter_append, List.filter_eq_self.2 (by simpa using hbefore),
    List.filter_eq_nil_iff.2 (by simpa using hnot), List.append_nil]

/-- A node lies in no other child than the one that it is below. -/
theorem filter_isFunctionAround {root : Node}
    (h : ∀ k ∈ root.preorder, k.IsLaidOut source length) (hn : n ∈ root.children)
    (hm : m ∈ n.preorder) :
    root.children.filter m.isFunctionAround =
      if n.kind = "FunctionDefinition" then [n] else [] := by
  have hself := h root (mem_preorder.2 (.inl rfl))
  have hinside := encloses_of_mem n (hself.filled n hn)
    (fun k hk => h k (mem_preorder.2 (.inr ⟨n, hn, hk⟩))) m hm
  obtain ⟨before, behind, hchildren⟩ := List.append_of_mem hn
  have hapart := hself.apart
  rw [hchildren, List.pairwise_append] at hapart
  obtain ⟨-, hrest, hfirst⟩ := hapart
  have hlater := (List.pairwise_cons.1 hrest).1
  have hspan := hinside.filled
  have hstart := hinside.start
  have hstop := hinside.stop
  have hearlier : before.filter m.isFunctionAround = [] := by
    refine List.filter_eq_nil_iff.2 fun k hk haround => ?_
    have := hfirst k hk n List.mem_cons_self
    simp only [Node.isFunctionAround, Bool.and_eq_true, decide_eq_true_eq] at haround
    omega
  have hbehind : behind.filter m.isFunctionAround = [] := by
    refine List.filter_eq_nil_iff.2 fun k hk haround => ?_
    have := hlater k hk
    simp only [Node.isFunctionAround, Bool.and_eq_true, decide_eq_true_eq] at haround
    omega
  rw [hchildren, List.filter_append, hearlier, List.filter_cons, hbehind]
  simp [Node.isFunctionAround, hstart, hstop]

theorem localsBefore_eq {root : Node} (h : ∀ k ∈ root.preorder, k.IsLaidOut source length)
    (hn : n ∈ root.children) (hm : m ∈ n.preorder) :
    root.localsBefore m = if n.kind = "FunctionDefinition" then
      n.children.filter (fun k => k.location.stop ≤ m.location.start) else [] := by
  rw [Node.localsBefore, filter_isFunctionAround h hn hm]
  split <;> simp

/-- The identifiers in an item refer to what is declared before them, or to what their names mean at
the top level. -/
theorem Item.references_eq {top : String → Option Declaration} {i : Item}
    (hresolved : i.IsResolved source top)
    (h : ∀ k ∈ (i.toNode source).preorder, k.IsLaidOut source length)
    (hm : m ∈ (i.toNode source).preorder) (hkind : m.kind = "Identifier") :
    m.label.references =
      (m.handleAmong (if (i.toNode source).kind = "FunctionDefinition" then
        (i.toNode source).children.filter (fun k => k.location.stop ≤ m.location.start)
        else [])).or ((top m.use.name.text).map (·.handle)) := by
  have hisUse : m.isUse = true := by simp [Node.isUse, hkind]
  have hname := (i.hasLeafUses m hm hisUse).name
  have huse : m.use ∈ i.uses := i.usesOf_toNode ▸ mem_usesOf.2 ⟨m, hm, hisUse, rfl⟩
  cases i with
  | importing path span target => cases huse
  | statement s =>
    have hmeans : m.label.references = (top m.use.name.text).map (·.handle) := hresolved m.use huse
    have hother : ((Item.statement s).toNode source).kind ≠ "FunctionDefinition" := by
      cases s <;> simp [Item.toNode, Statement.toNode, Node.kind]
    rw [if_neg hother, hmeans]
    rfl
  | function f =>
    rcases mem_preorder.1 hm with rfl | ⟨part, hpart, hm⟩
    · simp [Item.toNode, Node.kind] at hkind
    rcases List.mem_append.1 hpart with hpart | hpart
    · obtain ⟨p, -, rfl⟩ := List.mem_map.1 hpart
      rcases mem_preorder.1 hm with rfl | ⟨_, hnone, -⟩
      · simp [Parameter.toNode, Node.kind] at hkind
      · cases hnone
    · obtain ⟨s, hs, rfl⟩ := List.mem_map.1 hpart
      obtain ⟨before, behind, hbody⟩ := List.append_of_mem hs
      have hmeans : m.label.references = _ := hresolved before s behind hbody m.use
        (s.usesOf_toNode ▸ mem_usesOf.2 ⟨m, hm, hisUse, rfl⟩)
      have hchildren : ((Item.function f).toNode source).children =
          (f.parameters.map (·.toNode source) ++ before.map (·.toNode source)) ++
            s.toNode source :: behind.map (·.toNode source) := by
        simp [Item.toNode, hbody]
      have hfunction : ((Item.function f).toNode source).kind = "FunctionDefinition" := rfl
      rw [if_pos hfunction, filter_before h hchildren hm, handleAmong_append,
        handleAmong_parameters hname, handleAmong_statements hname, hmeans, firstNamed_append,
        Option.map_or, Option.map_or]

end

/-! ## Units and programs -/

namespace Gathering.IsSound

variable {sources : Table String String} {exchanges : List Exchange} {g : Gathering}

/-- What a unit declares at its top level can be looked up in its tree. -/
theorem handleAmong_bind (hname : m.label.name = some name) (u : SourceFile) (c : Checker) :
    m.handleAmong (u.bind g.units c).2.toUnit.root.children =
      (firstNamed name u.declarations).map (·.handle) := by
  rw [u.declarations_eq_outline, ← u.outline_bind g.units c, ← SourceFile.declarations_eq_outline]
  exact handleAmong_items hname _

/-- What an import declares at its top level can be looked up in its tree, from the last one on. -/
theorem handleAmong_import (h : g.IsSound sources exchanges) (hname : m.label.name = some name)
    (s : String) :
    ((bindAll g).units.find? s).bind (fun v => m.handleAmong v.root.children.reverse) =
      ((g.units.find? s).bind fun other => firstNamed name other.declarations.reverse).map
        (·.handle) := by
  cases hw : (bindAll g).units.find? s with
  | none =>
    have hnone : g.units.contains s = false :=
      contains_bindAll g s ▸ (Table.contains_eq_false_iff _ _).2 hw
    rw [(Table.contains_eq_false_iff _ _).1 hnone]
    rfl
  | some w =>
    obtain ⟨u, c, hu, rfl⟩ := exists_bind_of_bindAll h.keys hw
    rw [hu, Option.bind_some, Option.bind_some, u.declarations_eq_outline,
      ← u.outline_bind g.units c, ← SourceFile.declarations_eq_outline, SourceFile.declarations,
      ← List.filterMap_reverse]
    exact (congrArg m.handleAmong (List.map_reverse ..).symm).trans (handleAmong_items hname _)

/-- The identifiers of a bound unit refer to what they mean. -/
theorem references_eq (h : g.IsSound sources exchanges) (hunnamed : g.units.contains "" = false)
    {u : SourceFile} (hu : g.units.find? u.source = some u) (c : Checker)
    (hm : m ∈ (u.bind g.units c).2.toUnit.root.preorder) (hkind : m.kind = "Identifier") :
    m.label.references = (bindAll g).meaning? (u.bind g.units c).2.toUnit m := by
  obtain ⟨-, text, -, hsound⟩ := h.unit _ u hu
  have hlaid := fun k hk => (isSoundIn_bind c hsound k hk).laidOut
  have hname := ((u.bind g.units c).2.hasLeafUses m hm (by simp [Node.isUse, hkind])).name
  rcases mem_preorder.1 hm with rfl | ⟨n, hn, hmn⟩
  · simp [SourceFile.toUnit, Node.kind] at hkind
  obtain ⟨i, hi, rfl⟩ := List.mem_map.1 hn
  have hlocals := localsBefore_eq hlaid hn hmn
  have hrefers := Item.references_eq (u.isResolved_bind hunnamed c i hi)
    (fun k hk => hlaid k (mem_preorder.2 (.inr ⟨_, hn, hk⟩))) hmn hkind
  have himports : (u.bind g.units c).2.toUnit.imports = u.imports := by
    rw [SourceFile.imports_toUnit, SourceFile.imports_eq_outline, u.outline_bind,
      SourceFile.imports_eq_outline]
  rw [hrefers, Program.meaning?, hlocals, handleAmong_bind hname, himports, Option.or_assoc]
  simp only [h.handleAmong_import hname]
  rw [SourceFile.meaning?, Option.map_or, SourceFile.importedMeaning?, List.map_findSome?]
  rfl

/-! ## Reports -/

/-- The units of the program in the order in which they are bound. -/
theorem of_mem_boundEach (h : g.IsSound sources exchanges) {e : String × SourceFile}
    (he : e ∈ g.boundEach.2) :
    (bindAll g).units.find? e.1 = some e.2.toUnit ∧ e.2.source = e.1 := by
  have hfind := Table.find?_of_mem_entries (t := ⟨_⟩) (nodup_boundEach h.keys) he
  obtain ⟨u, c, hu, hbound⟩ := findIn_bindEach hfind
  refine ⟨?_, hbound ▸ (h.unit _ u hu).1⟩
  rw [find?_bindAll h.keys]
  exact congrArg (Option.map SourceFile.toUnit) hfind

/-- The unbound uses of the units are reported, and nothing else in these words. -/
theorem filter_findings_bindAll (h : g.IsSound sources exchanges) :
    (bindAll g).findings.filter Finding.isUndeclared =
      g.boundEach.2.flatMap fun e => unbound e.2.source e.2.uses := by
  have hread : g.draft.findings.filter Finding.isUndeclared = [] := by
    refine List.filter_eq_nil_iff.2 fun f hf hundeclared => ?_
    obtain ⟨source, -, e, rfl, -⟩ := h.found f hf
    rw [isUndeclared_finding] at hundeclared
    cases hundeclared
  rw [findings_bindAll h.keys, boundEach, filter_findings_bindEach, hread, List.nil_append]

end Gathering.IsSound

/-- Only one of some things counts. -/
theorem countP_flatMap_of_unique {α β γ : Type} {key : α → β} {l : List α} {a : α}
    {f : α → List γ} {p : γ → Bool} (hnodup : (l.map key).Nodup) (ha : a ∈ l)
    (hother : ∀ b ∈ l, key b ≠ key a → ∀ c ∈ f b, p c = false) :
    (l.flatMap f).countP p = (f a).countP p := by
  obtain ⟨before, behind, rfl⟩ := List.append_of_mem ha
  rw [List.map_append, List.map_cons, List.nodup_append] at hnodup
  obtain ⟨-, hlater, hearlier⟩ := hnodup
  have hnew := (List.nodup_cons.1 hlater).1
  have hzero (k : List α) (hk : ∀ b ∈ k, b ∈ before ++ a :: behind ∧ key b ≠ key a) :
      (k.flatMap f).countP p = 0 := by
    refine List.countP_eq_zero.2 fun c hc => ?_
    obtain ⟨b, hb, hc⟩ := List.mem_flatMap.1 hc
    simp [hother b (hk b hb).1 (hk b hb).2 c hc]
  rw [List.flatMap_append, List.flatMap_cons, List.countP_append, List.countP_append,
    hzero before fun b hb => ⟨List.mem_append_left _ hb, hearlier _ (List.mem_map_of_mem hb) _
      List.mem_cons_self⟩,
    hzero behind fun b hb => ⟨List.mem_append_right _ (List.mem_cons_of_mem _ hb), fun heq =>
      hnew (heq ▸ List.mem_map_of_mem hb)⟩, Nat.zero_add, Nat.add_zero]

/-- In the place of an identifier of a unit, one report of the unit says that it refers to nothing, or
none does. -/
theorem countP_unbound {v : SourceFile} {length : Nat}
    (h : ∀ k ∈ v.toUnit.root.preorder, k.IsLaidOut v.source length)
    (hm : m ∈ v.toUnit.root.preorder) (huse : m.isUse = true) :
    (unbound v.source v.uses).countP (·.isUndeclaredAt m.location) =
      if m.label.references = none then 1 else 0 := by
  have huses : v.uses = (v.toUnit.root.preorder.filter Node.isUse).map Node.use := by
    rw [← SourceFile.usesOf_toUnit, usesOf, Node.preorderAll, Node.preorderAll, List.append_nil]
  have hlocation (k : Node) (hk : k ∈ v.toUnit.root.preorder) (f : Finding)
      (hf : f ∈ unbound v.source [k.use]) : f.location = some k.location := by
    obtain ⟨u, hu, rfl⟩ := List.mem_map.1 hf
    obtain rfl := List.mem_singleton.1 (List.mem_filter.1 hu).1
    exact congrArg some (h k hk).location_use
  rw [huses, unbound_map_use, countP_flatMap_of_unique (nodup_locations rfl h v.hasLeafUses)
    (List.mem_filter.2 ⟨hm, huse⟩) fun k hk hne f hf => ?_]
  · cases hreferences : m.label.references with
    | none =>
      have hself := hlocation m hm (undeclared v.source m.use) (by simp [unbound, Node.use, hreferences])
      simp [unbound, Node.use, hreferences, Finding.isUndeclaredAt, Finding.isUndeclared,
        undeclared] at hself ⊢
      exact hself
    | some handle => simp [unbound, Node.use, hreferences]
  · simp [Finding.isUndeclaredAt, hlocation k (List.mem_filter.1 hk).1 f hf, hne]

namespace Gathering.IsSound

variable {sources : Table String String} {exchanges : List Exchange} {g : Gathering}

theorem isLaidOut_of_mem_boundEach (h : g.IsSound sources exchanges) {e : String × SourceFile}
    (he : e ∈ g.boundEach.2) :
    ∃ length, ∀ k ∈ e.2.toUnit.root.preorder, k.IsLaidOut e.2.source length := by
  obtain ⟨hfind, hsource⟩ := h.of_mem_boundEach he
  obtain ⟨-, text, -, hnodes⟩ := h.isWellFormed_bindAll.unit _ _ hfind
  exact ⟨_, fun k hk => hsource ▸ (hnodes k hk).1⟩

/-- In the place of an identifier, one report says that it refers to nothing, or none does. -/
theorem countP_findings (h : g.IsSound sources exchanges) {e : String × SourceFile}
    (he : e ∈ g.boundEach.2)
    (hm : m ∈ e.2.toUnit.root.preorder) (huse : m.isUse = true) :
    (bindAll g).findings.countP (·.isUndeclaredAt m.location) =
      if m.label.references = none then 1 else 0 := by
  obtain ⟨length, hlaid⟩ := h.isLaidOut_of_mem_boundEach he
  have hworded : (bindAll g).findings.countP (·.isUndeclaredAt m.location) =
      ((bindAll g).findings.filter Finding.isUndeclared).countP (·.isUndeclaredAt m.location) := by
    rw [List.countP_filter]
    refine List.countP_congr fun f _ => ?_
    simp only [Finding.isUndeclaredAt, Bool.and_eq_true]
    tauto
  rw [hworded, h.filter_findings_bindAll, countP_flatMap_of_unique (nodup_boundEach h.keys) he
    fun other hother hne f hf => ?_, countP_unbound hlaid hm huse]
  have hsource := (hlaid m hm).source
  rw [(h.of_mem_boundEach he).2] at hsource
  obtain ⟨u, -, rfl⟩ := List.mem_map.1 hf
  have hplace : u.name.span.within other.2.source ≠ m.location := fun heq =>
    hne ((h.of_mem_boundEach hother).2.symm.trans ((congrArg SourceLocation.source heq).trans hsource))
  simp [Finding.isUndeclaredAt, undeclared, hplace]

/-- What says in these words that something is unbound is about an identifier that is. -/
theorem exists_of_isUndeclared (h : g.IsSound sources exchanges) {f : Finding}
    (hf : f ∈ (bindAll g).findings) (hundeclared : f.isUndeclared = true) :
    ∃ u m, (bindAll g).HasIdentifier u m ∧ m.label.references = none ∧
      f.isUndeclaredAt m.location = true := by
  have hmem := List.mem_filter.2 ⟨hf, hundeclared⟩
  rw [h.filter_findings_bindAll] at hmem
  obtain ⟨e, he, hmem⟩ := List.mem_flatMap.1 hmem
  obtain ⟨use, huse, rfl⟩ := List.mem_map.1 hmem
  obtain ⟨huses, hnone⟩ := List.mem_filter.1 huse
  rw [← SourceFile.usesOf_toUnit] at huses
  obtain ⟨m, hm, hisUse, rfl⟩ := mem_usesOf.1 huses
  have hunbound : m.label.references = none := Option.isNone_iff_eq_none.1 hnone
  have hkind : m.kind = "Identifier" := by simpa [Node.isUse, hunbound] using hisUse
  obtain ⟨length, hlaid⟩ := h.isLaidOut_of_mem_boundEach he
  have hlocation := (hlaid m hm).location_use
  refine ⟨_, m, ⟨⟨e.1, (h.of_mem_boundEach he).1⟩, hm, hkind⟩, hunbound, ?_⟩
  simp [Finding.isUndeclaredAt, Finding.isUndeclared, undeclared, hlocation]

/-- Binding what was gathered binds all names, unless a unit has no name. -/
theorem isBound_bindAll (h : g.IsSound sources exchanges)
    (hunnamed : g.units.contains "" = false) : (bindAll g).IsBound where
  meaning w m hm := by
    obtain ⟨⟨name, hw⟩, hmem, hkind⟩ := hm
    obtain ⟨u, c, hu, rfl⟩ := exists_bind_of_bindAll h.keys hw
    obtain ⟨rfl, -⟩ := h.unit name u hu
    exact h.references_eq hunnamed hu c hmem hkind
  named w m hm handle hhandle := by
    obtain ⟨⟨name, hw⟩, hmem, hkind⟩ := hm
    obtain ⟨u, c, hu, rfl⟩ := exists_bind_of_bindAll h.keys hw
    have huse : m.isUse = true := by simp [Node.isUse, hkind]
    obtain ⟨x, hfind, hname⟩ :=
      h.isBound_of_mem_uses hu (SourceFile.use_mem_uses hmem huse) handle hhandle
    exact ⟨x, hfind, hname ▸ ((u.bind g.units c).2.hasLeafUses m hmem huse).name⟩
  reported w m hm := by
    obtain ⟨⟨name, hw⟩, hmem, hkind⟩ := hm
    rw [find?_bindAll h.keys] at hw
    obtain ⟨v, hv, rfl⟩ := Option.map_eq_some_iff.1 hw
    exact h.countP_findings (Table.mem_entries_of_find? (t := ⟨_⟩) hv) hmem
      (by simp [Node.isUse, hkind])
  grounded f hf := h.exists_of_isUndeclared hf

end Gathering.IsSound

/-- A compilation ends with a program whose names are bound by the rule of scopes, unless a unit has no
name, whatever it is given and however its questions are answered. -/
theorem isBound_compile {budget : Nat} {input : EngineInput} {exchanges : List Exchange}
    {p : Program} (h : (compile budget input).Ends exchanges p)
    (hunnamed : p.units.contains "" = false) : p.IsBound := by
  obtain ⟨first, g, second, rfl, hgather, hdone⟩ := h.of_andThen
  cases hdone
  rw [Gathering.contains_bindAll] at hunnamed
  exact (Gathering.isSound_gather hgather).isBound_bindAll hunnamed

/-- A variable hides another one behind its declaration, but not in its first value. -/
def shadowedImport : EngineInput where
  sources := .ofList
    [("a", "import \"./b\"; function f(p) \x7b var g = g; g = p + z; \x7d f(h);"),
      ("b", "import \"./a\"; var g; var h = 1; var h = f;")]
  remappings := []
  targetVersion := none

/-- The identifiers of the units of a program, with what they refer to. -/
def referencesOf (p : Program) : List (List (String × Option Int)) :=
  p.units.values.map fun u => (usesOf [u.root]).map fun use => (use.name.text, use.target)

theorem isBound_shadowedImport : ∃ exchanges p, (compile 9 shadowedImport).Ends exchanges p ∧
    p.units.contains "" = false ∧
      referencesOf p = [[("g", some 4), ("g", some 2), ("p", some 1), ("z", none),
        ("f", some 3), ("h", some 6)], [("f", some 3)]] ∧ p.IsBound := by
  have hread : ((compile 9 shadowedImport).converse answerTwice).2.map
      (fun p => (p.units.contains "", referencesOf p)) =
        .ok (false, [[("g", some 4), ("g", some 2), ("p", some 1), ("z", none), ("f", some 3),
          ("h", some 6)], [("f", some 3)]]) := by
    decide +kernel
  obtain ⟨exchanges, p, hends, hread⟩ := Compiling.exists_ends_of_map hread
  obtain ⟨hunnamed, hreferences⟩ := Prod.mk.inj hread
  exact ⟨exchanges, p, hends, hunnamed, hreferences, isBound_compile hends hunnamed⟩

end Toy

end LanguageServer
