import LanguageServer.Proofs.Toy.Checking

/-!
# Compiled programs are well formed

Whatever a compilation is given and however its questions are answered, the program that it ends
with is well formed: nodes are nested in order inside the texts of their units, handles are
declared once and lead to declarations, a declaration stands at a name inside the node that
declares it, and findings lie in texts.

## Main definitions

* `Program.IsWellFormed` — a program is well formed for the texts of its sources.

## Main statements

* `isWellFormed_compile` — a compilation ends with a program that is well formed.
-/

namespace LanguageServer

open Toy (IsDeclared heard)

/-- The trees of the units are laid out in the texts of the units; no two nodes of the program
declare one handle, and handles lead to declarations, that of a node to one at a name inside the
node.  Findings lie in the texts of units, with the places that belong to them. -/
structure Program.IsWellFormed (text? : String → Option String) (p : Program) : Prop where
  unit : ∀ name u, p.units.find? name = some u → u.source = name ∧
    ∃ text, text? name = some text ∧ ∀ n ∈ u.root.preorder,
      n.IsLaidOut name text.toList.length ∧ IsDeclared text.toList p.declarations n
  once : (p.units.values.flatMap fun u => Node.declared [u.root]).Nodup
  known : ∀ name u, p.units.find? name = some u → ∀ n ∈ u.root.preorder, ∀ handle,
    n.label.declares = some handle ∨ n.label.references = some handle →
      p.declarations.contains handle = true
  found : ∀ f ∈ p.findings, f.IsPlaced fun l => ∃ name text, p.units.contains name = true ∧
    text? name = some text ∧ l.LiesIn name text.toList.length

namespace Toy

namespace Gathering.IsSound

variable {sources : Table String String} {exchanges : List Exchange} {g : Gathering}

/-- Units stand in texts of units. -/
theorem holds (h : g.IsSound sources exchanges) (name : String) (u : SourceFile)
    (hu : g.units.find? name = some u) :
    (∃ text, u.IsSound text g.draft.declarations) ∧ u.StandsIn g.Holds := by
  obtain ⟨rfl, text, htext, hsound⟩ := h.unit name u hu
  exact ⟨⟨text.toList, hsound⟩,
    hsound.standsIn fun l hl => ⟨u.source, text, by simp [Table.contains, hu], htext, hl⟩⟩

/-- Binding leaves trees sound. -/
theorem isSoundIn_bind {text : List Char} {u : SourceFile} (c : Checker)
    (h : u.IsSound text g.draft.declarations) :
    IsSoundIn u.source text g.draft.declarations (u.bind g.units c).2.toUnit.root :=
  h.tree.of_bare (u.bare_bind g.units c)

/-- The uses of a bound unit refer to declarations of their names. -/
theorem isBound_of_mem_uses (h : g.IsSound sources exchanges) {name : String} {u : SourceFile}
    (hu : g.units.find? name = some u) {c : Checker} {use : Use}
    (huse : use ∈ (u.bind g.units c).2.uses) : use.IsBound g.draft.declarations := by
  have hstored (name : String) (other : SourceFile) (hother : g.units.find? name = some other) :
      ∀ x ∈ other.declarations, x.IsStored g.Holds g.draft.declarations := by
    obtain ⟨⟨text, hsound⟩, hholds⟩ := h.holds name other hother
    exact hsound.isStored hholds
  obtain ⟨⟨text, hsound⟩, hholds⟩ := h.holds name u hu
  exact (SourceFile.bind_finds hstored hsound hholds).2 use huse

/-- The handles that the nodes of a program declare are those of the units that were gathered. -/
theorem declared_bindAll (g : Gathering) :
    ((bindAll g).units.values.flatMap fun w => Node.declared [w.root]) = declared g.units := by
  have hshape := congrArg
    (fun t : Table String Node => t.values.flatMap fun n => Node.declared [n])
    (bare_bindUnits g.units ⟨.empty, g.draft.findings⟩ (Text.sorted g.units.keys))
  have hbare (n : Node) : Node.declared [n.bare] = Node.declared [n] := Node.declared_bareAll [n]
  simpa [bindAll, declared, Table.values, Table.mapValues, List.flatMap_map, hbare] using hshape

/-- Binding what was gathered yields a program that is well formed. -/
theorem isWellFormed_bindAll (h : g.IsSound sources exchanges) :
    (bindAll g).IsWellFormed (heard sources exchanges) := by
  exact
    { unit := fun name w hw => by
        obtain ⟨u, c, hu, rfl⟩ := exists_bind_of_bindAll h.keys hw
        obtain ⟨rfl, text, htext, hsound⟩ := h.unit name u hu
        exact ⟨rfl, text, h.texts _ ▸ htext, fun n hn =>
          ⟨(isSoundIn_bind c hsound n hn).laidOut, (isSoundIn_bind c hsound n hn).declared⟩⟩
      once := declared_bindAll g ▸ h.nodup
      known := fun name w hw n hn handle hhandle => by
        obtain ⟨u, c, hu, rfl⟩ := exists_bind_of_bindAll h.keys hw
        rcases hhandle with hhandle | hhandle
        · obtain ⟨⟨text, hsound⟩, -⟩ := h.holds name u hu
          obtain ⟨other, -, -, hfind, -⟩ := (isSoundIn_bind c hsound n hn).declared handle hhandle
          exact Option.isSome_of_mem hfind
        · have huse := SourceFile.use_mem_uses hn (by simp [Node.isUse, hhandle])
          obtain ⟨x, hfind, -⟩ := h.isBound_of_mem_uses hu huse handle hhandle
          exact Option.isSome_of_mem hfind
      found := fun f hf => by
        rw [findings_bindAll h.keys] at hf
        have hplaced : f.IsPlaced g.Holds := by
          rcases bindEach_finds h.holds (Text.sorted g.units.keys) f hf with hf | hf
          · obtain ⟨source, text, e, rfl, hcontains, htext, htoken⟩ := h.found f hf
            exact ⟨⟨_, rfl, source, text, hcontains, htext, htoken.liesIn source⟩,
              fun _ hnone => absurd hnone List.not_mem_nil⟩
          · exact hf
        refine hplaced.mono fun l hholds => ?_
        obtain ⟨name, text, hcontains, htext, hlies⟩ := hholds
        exact ⟨name, text, (contains_bindAll g name).trans hcontains, h.texts _ ▸ htext, hlies⟩ }

end Gathering.IsSound

/-- A compilation ends with a program that is well formed, whatever it is given and however its
questions are answered. -/
theorem isWellFormed_compile {budget : Nat} {input : EngineInput} {exchanges : List Exchange}
    {p : Program} (h : (compile budget input).Ends exchanges p) :
    p.IsWellFormed (heard input.sources exchanges) := by
  obtain ⟨first, g, second, rfl, hgather, hdone⟩ := h.of_andThen
  cases hdone
  rw [List.append_nil]
  exact (Gathering.isSound_gather hgather).isWellFormed_bindAll

/-- A function that breaks off behind its parameters, in a source that imports another. -/
def brokenOff : EngineInput where
  sources := .ofList
    [("a", "import \"./b\"; function f(p, q \x7b p; var x : string = g + 1;")]
  remappings := []
  targetVersion := none

/-- Each source that is asked for imports the first one, and declares a name twice. -/
def answerTwice (_ _ : String) : Except Fault ReadOutcome :=
  .ok (.ok "import \"./a\"; var g = 1; function h(p) \x7b var p = g; p = x; return y; \x7d")

theorem isWellFormed_brokenOff : ∃ exchanges p, (compile 9 brokenOff).Ends exchanges p ∧
    (p.units.keys, p.declarations.size, p.findings.length) = (["a", "b"], 7, 3) ∧
      p.IsWellFormed (heard brokenOff.sources exchanges) := by
  have hcounts : ((compile 9 brokenOff).converse answerTwice).2.map
      (fun p => (p.units.keys, p.declarations.size, p.findings.length)) =
        .ok (["a", "b"], 7, 3) := by
    decide +kernel
  obtain ⟨exchanges, p, hends, hcounts⟩ := Compiling.exists_ends_of_map hcounts
  exact ⟨exchanges, p, hends, hcounts, isWellFormed_compile hends⟩

end Toy

end LanguageServer
