import LanguageServer.Proofs.Toy.Pointing
import LanguageServer.Proofs.Workspace.Compiled

/-!
# Pointing into a workspace

After a compilation with the toy engine the units of the program are translated in the texts that they
were read from.  So the positions in and behind a name lead back to it, and queries there are answered
for the declaration that the name stands for.

## Main definitions

* `View.Shows` — the units of a program are looked up in the texts that they were read from.
* `Workspace.AnswersFor` — queries at a position are answered for a declaration.

## Main statements

* `Workspace.shows_of_compile` — this is so after a compilation.
* `View.Shows.nodeAt?_of_nameEnds` — behind a name its node is found.
* `View.Shows.nodeAt?_eq_some_iff` — which characters of an identifier lead to it.
-/

namespace LanguageServer

open Toy

/-- The units of a program are looked up in the texts that they were read from, and what is referred to
in them is declared in one of them. -/
structure View.Shows (v : View) (program : Program) : Prop where
  unit : ∀ name u, program.units.find? name = some u → u.source = name ∧
    ∃ text, v.index name = some (.ofString text) ∧
      u.IsReadFrom text.toList program.declarations
  declared : ∀ name u, program.units.find? name = some u → ∀ m ∈ u.root.preorder,
    ∀ handle, m.label.references = some handle →
      ∃ other w, program.units.find? other = some w ∧
        ∃ k ∈ w.root.preorder, k.label.declares = some handle

namespace Workspace

variable {env : Environment} {budget : Nat} {ws ws' : Workspace} {program : Program}

/-- What was gathered is sound. -/
theorem IsGathered.isSound {k : Knowledge} {sources : Table String String}
    {exchanges : List Exchange} {g : Gathering}
    (h : IsGathered env budget ws k sources exchanges g) : g.IsSound sources exchanges := by
  obtain ⟨n, -, hgathers⟩ := h.gathers
  have hrun := Gathering.converse_run.2 ⟨n, Nat.le_refl n, hgathers⟩
  have hends := Compiling.ends_of_converse (congrArg Prod.snd hrun)
  rw [hrun] at hends
  exact (Gathering.IsSound.start sources).run _ n hends

/-- What is gathered is shown. -/
theorem IsGathered.shows {k : Knowledge} {sources : Table String String} {exchanges : List Exchange}
    {g : Gathering} (h : IsGathered env budget ws k sources exchanges g) : k.view.Shows k.program := by
  obtain ⟨place, hcomplete⟩ := h.isComplete
  have hsound := h.isSound
  rw [h.program]
  refine ⟨fun name u hu => ?_, fun name u hu m hm handle => ?_⟩
  · obtain ⟨hsource, text, htext, hread⟩ := Gathering.isReadFrom_bindAll hsound hcomplete hu
    have hcontains := (Gathering.yields_bindAll hcomplete hu).1
    refine ⟨hsource, text, ?_, hread⟩
    have hindex : k.view.index name = (k.sources.find? name).map LineIndex.ofString := rfl
    rw [hindex, h.find?_sources hcomplete hcontains, htext]
    rfl
  · exact Gathering.exists_declares_of_references hsound hu hm

/-- After a compilation its program is shown. -/
theorem shows_of_compile (henv : env.IsToy budget) {said : List (Effect × Workspace)}
    (h : (compile env).run ws = ⟨said, .ok program, ws'⟩) : ws'.view.Shows program := by
  obtain ⟨k, sources, exchanges, g, hgathered, rfl, hknows, -⟩ :=
    exists_isGathered_of_compile henv h
  rw [hknows.view]
  exact hgathered.shows

end Workspace

/-! ## Nodes and declarations -/

namespace View.Shows

variable {v : View} {program : Program} {name : String} {u : CompiledUnit} {m : Node}
  {index : LineIndex}

/-- What a node declares is declared in its source. -/
theorem exists_declaration (h : v.Shows program) (hu : program.units.find? name = some u)
    (hm : m ∈ u.root.preorder) {handle : Int} (hdeclares : m.label.declares = some handle) :
    ∃ d, program.declarations.find? handle = some d ∧ d.handle = handle ∧
      d.location.source = name := by
  obtain ⟨hsource, text, -, hread⟩ := h.unit name u hu
  obtain ⟨spelled, -, -, hfind, -⟩ := hread.declared m hm handle hdeclares
  exact ⟨_, hfind, rfl, (hread.laidOut m hm).source.trans hsource⟩

/-- What a node refers to is declared in the source of a unit. -/
theorem exists_declaration_of_references (h : v.Shows program)
    (hu : program.units.find? name = some u) (hm : m ∈ u.root.preorder) {handle : Int}
    (hreferences : m.label.references = some handle) :
    ∃ d w, program.declarations.find? handle = some d ∧ d.handle = handle ∧
      program.units.find? d.location.source = some w ∧
        ∃ k ∈ w.root.preorder, k.label.declares = some handle := by
  obtain ⟨other, w, hw, k, hk, hdeclares⟩ := h.declared name u hu m hm handle hreferences
  obtain ⟨d, hfind, hhandle, rfl⟩ := h.exists_declaration hw hk hdeclares
  exact ⟨d, w, hfind, hhandle, hw, k, hk, hdeclares⟩

/-! ## Nodes at positions -/

/-- The search at a place in a name, or behind it, is one in the tree of its unit. -/
theorem nodeAt?_of_name {text : String} (hu : program.units.find? name = some u)
    (hindex : v.index name = some (.ofString text)) {t : Token} (ht : t ∈ tokens text.toList)
    (hkind : t.kind = .name) {offset : Int} (hstart : t.span.start ≤ offset)
    (hstop : offset ≤ t.span.stop) :
    v.nodeAt? program name ((LineIndex.ofString text).positionAt offset) =
      innermost u.root offset := by
  obtain ⟨i, rfl⟩ : ∃ i : Nat, offset = i := ⟨offset.toNat, by omega⟩
  have hback := offsetAt_positionAt_of_name ht hkind (i := i) (by omega) (by omega)
  simp [View.nodeAt?, View.offset?, hu, hindex, hback, Except.toOption]

/-- Where the name of a node ends, that node is found. -/
theorem nodeAt?_of_nameEnds (h : v.Shows program) (hu : program.units.find? name = some u)
    (hm : m ∈ u.root.preorder) (hindex : v.index name = some index) {e : Int}
    (he : m.NameEnds program.declarations e) :
    v.nodeAt? program name (index.positionAt e) = some m := by
  obtain ⟨-, text, htext, hread⟩ := h.unit name u hu
  obtain rfl := Option.some.inj (hindex.symm.trans htext)
  obtain ⟨t, ht, hname, rfl⟩ := hread.exists_token hm he
  have hnonempty := (isPieceOf_of_mem_tokens ht).nonempty
  rw [nodeAt?_of_name hu htext ht hname (by omega) (by omega)]
  exact hread.innermost_of_nameEnds hm he

/-- An identifier is found at each of its characters but the first, and there too unless a node that
ends there is as short. -/
theorem nodeAt?_eq_some_iff (h : v.Shows program) (hu : program.units.find? name = some u)
    (hm : m ∈ u.root.preorder) (hkind : m.kind = "Identifier")
    (hindex : v.index name = some index) {offset : Int} (hstart : m.location.start ≤ offset)
    (hstop : offset < m.location.stop) :
    v.nodeAt? program name (index.positionAt offset) = some m ↔
      (offset = m.location.start → ∀ k ∈ u.root.preorder, k.location.stop = offset →
        m.location.length < k.location.length) := by
  obtain ⟨-, text, htext, hread⟩ := h.unit name u hu
  obtain rfl := Option.some.inj (hindex.symm.trans htext)
  obtain ⟨t, ht, hname, hlocation⟩ :=
    hread.spaced.token m (by simpa [Node.preorderAll] using hm) hkind
  have huse : m.isUse = true := by simp [Node.isUse, hkind]
  have hleaf := ((hread.sorted m hm).isNamedLeaf huse).2.children
  have hspan : m.location.start = t.span.start ∧ m.location.stop = t.span.stop := by
    rw [hlocation]
    exact ⟨rfl, rfl⟩
  rw [nodeAt?_of_name hu htext ht hname (by omega) (by omega)]
  exact innermost_eq_some_iff hread.laidOut hm hleaf hstart hstop

end View.Shows

/-! ## Queries -/

namespace Workspace

/-- Queries at a position in a unit are answered for a declaration. -/
structure AnswersFor (ws : Workspace) (program : Program) (name : String) (u : CompiledUnit)
    (p : Position) (d : Declaration) : Prop where
  declaration : ((Navigation.declarationAt program name p).run ws).result = .ok (some d)
  definition : ((Navigation.definition program name p).run ws).result =
    ((toLocation d.location).run ws).result.map Option.toList
  references : ((Navigation.references program name p).run ws).result =
    ((Navigation.locateAll d (Navigation.unitsInOrder program)).run ws).result.map
      (List.map fun r => ⟨r.1, r.2.range⟩)
  highlights : ((Navigation.highlights program name p).run ws).result =
    ((Navigation.highlightAll (occurrences d u)).run ws).result

section

variable {env : Environment} {budget : Nat} {ws ws' : Workspace} {program : Program}
  {name : String} {u : CompiledUnit} {p : Position} {d : Declaration}

/-- Queries are answered for the declaration that is found at their position. -/
theorem answersFor_of_declarationAt? (hu : program.units.find? name = some u)
    (h : ws.view.declarationAt? program name p = some d) : ws.AnswersFor program name u p d where
  declaration := by rw [(reads_declarationAt program name p).result_eq, h]
  definition := by
    rw [(reads_definition program name p).result_eq, (reads_toLocation d.location).result_eq,
      View.definition, h]
  references := by
    rw [(reads_references program name p).result_eq, (reads_locateAll d _).result_eq,
      View.references, h]
  highlights := by
    rw [(reads_highlights program name p).result_eq, (reads_highlightAll _).result_eq,
      View.highlights, h, hu]

/-- The characters of an identifier lead to it, except for its first one if a node that is as short
ends there.  Where they do, queries are answered for the declaration of the identifier. -/
theorem nodeAt_identifier_iff (henv : env.IsToy budget) {said : List (Effect × Workspace)}
    (hcompile : (compile env).run ws = ⟨said, .ok program, ws'⟩)
    (hu : program.units.find? name = some u) {m : Node} (hm : m ∈ u.root.preorder)
    (hkind : m.kind = "Identifier") {offset : Int} (hstart : m.location.start ≤ offset)
    (hstop : offset < m.location.stop) :
    ∃ index, ws'.lineIndex? name = some index ∧
      (((Navigation.nodeAt program name (index.positionAt offset)).run ws').result = .ok (some m) ↔
        (offset = m.location.start → ∀ k ∈ u.root.preorder, k.location.stop = offset →
          m.location.length < k.location.length)) ∧
      (((Navigation.nodeAt program name (index.positionAt offset)).run ws').result = .ok (some m) →
        ∀ handle, m.label.references = some handle →
          ∃ d, program.declarations.find? handle = some d ∧
            ws'.AnswersFor program name u (index.positionAt offset) d) := by
  have hshows := shows_of_compile henv hcompile
  obtain ⟨-, text, htext, -⟩ := hshows.unit name u hu
  refine ⟨_, htext, ?_⟩
  rw [(reads_nodeAt program name _).result_eq, Except.ok.injEq]
  refine ⟨hshows.nodeAt?_eq_some_iff hu hm hkind htext hstart hstop, ?_⟩
  intro hfound handle hreferences
  obtain ⟨d, -, hfind, -⟩ := hshows.exists_declaration_of_references hu hm hreferences
  refine ⟨d, hfind, answersFor_of_declarationAt? hu ?_⟩
  simp [View.declarationAt?, hfound, Program.declarationOf?, hreferences, hfind]

end

/-- The toy engine without files. -/
def toyEnvironment : Environment := ⟨.empty [], fun _ => Toy.engine 10, "toy"⟩

/-- A workspace with a document in which nothing stands between two statements. -/
def crowded : Workspace :=
  { Workspace.empty with
    store := DocumentStore.empty.track "u" (.str "toy") none "var abcdef;1;abcdef;" }

/-- The nodes of a source after a compilation. -/
def nodesOf (r : Run Workspace Program) (name : String) : List Node :=
  match r.result with
  | .ok program => ((program.units.find? name).map (·.root.preorder)).getD []
  | .error _ => []

theorem exists_mem_of_nodesOf {r : Run Workspace Program} {name : String} {f : Node → Bool}
    (h : (nodesOf r name).any f = true) :
    ∃ said program ws' u m, r = ⟨said, .ok program, ws'⟩ ∧ program.units.find? name = some u ∧
      m ∈ u.root.preorder ∧ f m = true := by
  obtain ⟨said, result, ws'⟩ := r
  cases result with
  | error e => simp [nodesOf] at h
  | ok program =>
    cases hu : program.units.find? name with
    | none => simp [nodesOf, hu] at h
    | some u =>
      obtain ⟨m, hm, hf⟩ := List.any_eq_true.1 h
      exact ⟨said, program, ws', u, m, rfl, hu, by simpa [nodesOf, hu] using hm, hf⟩

/-- At its second character an identifier is found, whatever ends before it. -/
theorem nodeAt_identifier_crowded : ∃ said program ws' u m index d,
    (compile toyEnvironment).run crowded = ⟨said, .ok program, ws'⟩ ∧
      program.units.find? "u" = some u ∧ m ∈ u.root.preorder ∧ m.kind = "Identifier" ∧
      m.location = ⟨"u", 13, 19⟩ ∧ ws'.lineIndex? "u" = some index ∧
      ((Navigation.nodeAt program "u" (index.positionAt 14)).run ws').result = .ok (some m) ∧
      program.declarations.find? 1 = some d ∧
      ws'.AnswersFor program "u" u (index.positionAt 14) d := by
  have henv : toyEnvironment.IsToy 10 := fun _ => rfl
  have hany : (nodesOf ((compile toyEnvironment).run crowded) "u").any (fun n =>
      n.kind = "Identifier" ∧ n.location = ⟨"u", 13, 19⟩ ∧ n.label.references = some 1) = true := by
    decide +kernel
  obtain ⟨said, program, ws', u, m, hrun, hu, hm, hidentifier⟩ := exists_mem_of_nodesOf hany
  obtain ⟨hkind, hlocation, hreferences⟩ := of_decide_eq_true hidentifier
  have hstart : m.location.start ≤ 14 := by simp [hlocation]
  have hstop : 14 < m.location.stop := by simp [hlocation]
  obtain ⟨index, hindex, hiff, hanswers⟩ :=
    nodeAt_identifier_iff henv hrun hu hm hkind hstart hstop
  have hfound := hiff.2 fun hfirst => absurd hfirst (by simp [hlocation])
  obtain ⟨d, hfind, hqueries⟩ := hanswers hfound 1 hreferences
  exact ⟨said, program, ws', u, m, index, d, hrun, hu, hm, hkind, hlocation, hindex, hfound, hfind,
    hqueries⟩

/-- The sort of the node that is found at an offset after a compilation. -/
def kindAt (r : Run Workspace Program) (name : String) (offset : Int) : Option String :=
  match r.result, r.state.lineIndex? name with
  | .ok program, some index =>
    let found := ((Navigation.nodeAt program name (index.positionAt offset)).run r.state).result
    found.toOption.join.map Node.kind
  | _, _ => none

/-- At its first character an identifier need not be found: a shorter statement ends there. -/
theorem not_nodeAt_identifier : ¬ ∀ (env : Environment) (budget : Nat) (ws ws' : Workspace)
    (said : List (Effect × Workspace)) (program : Program), env.IsToy budget →
    (compile env).run ws = ⟨said, .ok program, ws'⟩ →
    ∀ name u, program.units.find? name = some u →
    ∀ m ∈ u.root.preorder, m.kind = "Identifier" →
    ∀ offset : Int, m.location.start ≤ offset → offset < m.location.stop →
    ∀ index, ws'.lineIndex? name = some index →
      ((Navigation.nodeAt program name (index.positionAt offset)).run ws').result = .ok (some m) := by
  intro hall
  have henv : toyEnvironment.IsToy 10 := fun _ => rfl
  have hany : (nodesOf ((compile toyEnvironment).run crowded) "u").any (fun n =>
      n.kind = "Identifier" ∧ n.location = ⟨"u", 13, 19⟩) = true := by
    decide +kernel
  obtain ⟨said, program, ws', u, m, hrun, hu, hm, hidentifier⟩ := exists_mem_of_nodesOf hany
  obtain ⟨hkind, hlocation⟩ := of_decide_eq_true hidentifier
  obtain ⟨-, text, hindex, -⟩ := (shows_of_compile henv hrun).unit "u" u hu
  have hstart : m.location.start ≤ 13 := by simp [hlocation]
  have hstop : 13 < m.location.stop := by simp [hlocation]
  have hfound := hall _ 10 _ _ _ _ henv hrun "u" u hu m hm hkind 13 hstart hstop _ hindex
  -- The statement `1;` ends where the identifier starts, and it is shorter.
  have hother : kindAt ((compile toyEnvironment).run crowded) "u" 13 =
      some "ExpressionStatement" := by
    decide +kernel
  have hsame : kindAt ((compile toyEnvironment).run crowded) "u" 13 = some "Identifier" := by
    rw [hrun, ← hkind]
    simp only [kindAt, show ws'.lineIndex? "u" = some _ from hindex, hfound]
    rfl
  exact absurd (hother.symm.trans hsame) (by decide)

end Workspace

end LanguageServer
