import LanguageServer.Workspace.Diagnostics

/-!
# Forgetting documents

A closed document is kept as long as an open one imports it, directly or through other
sources.  The imports are those of the latest compilation.

## Main definitions

* `ImportGraph.reach` — the names that a graph leads to.
* `Workspace.collectGarbage` — forgets the closed documents that no open one needs.
-/

namespace LanguageServer

/-- Imports by the name of the importing source. -/
abbrev ImportGraph := Table String (List String)

namespace ImportGraph

/-- The imports of a source; a source that is not in the graph has none. -/
def importsOf (g : ImportGraph) (name : String) : List String := (g.find? name).getD []

/-- The number of names that sources which are not among some names, with their imports, can put on a
stack when each is visited once. -/
def cost (g : ImportGraph) (names : List String) : List String → Nat
  | [] => 0
  | name :: rest =>
    if names.contains name then cost g names rest
    else (g.importsOf name).length + 1 + cost g names rest

theorem cost_cons_le (g : ImportGraph) (names : List String) (name : String) (l : List String) :
    g.cost (name :: names) l ≤ g.cost names l := by
  induction l with
  | nil => exact Nat.le_refl 0
  | cons other rest ih =>
    unfold cost
    by_cases h : names.contains other = true
    · have hcons : (name :: names).contains other = true := by
        rw [List.contains_cons, h, Bool.or_true]
      simpa only [h, hcons, if_true] using ih
    · rw [if_neg h]
      split <;> omega

/-- Visiting a source of the graph makes up for the imports that it puts on the stack. -/
theorem cost_cons_lt {g : ImportGraph} {names : List String} {name : String} {l : List String}
    (h : name ∈ l) (hn : ¬ names.contains name = true) :
    (g.importsOf name).length + g.cost (name :: names) l < g.cost names l := by
  induction l with
  | nil => cases h
  | cons other rest ih =>
    have hrest := g.cost_cons_le names name rest
    unfold cost
    by_cases heq : other = name
    · subst heq
      have hcons : (other :: names).contains other = true := by simp
      rw [if_pos hcons, if_neg hn]
      omega
    · have hmem : name ∈ rest := (List.mem_cons.1 h).resolve_left (Ne.symm heq)
      have hcons : (name :: names).contains other = names.contains other := by simp [heq]
      rw [hcons]
      have hlt := ih hmem
      split <;> omega

/-- The names that the graph leads to from those on a stack, besides those that were reached
already.  The top of the stack is the head of the list. -/
def reach (g : ImportGraph) (reached : List String) : List String → List String
  | [] => reached
  | name :: stack =>
    if reached.contains name then reach g reached stack
    else if g.contains name then
      reach g (name :: reached) ((g.importsOf name).reverse ++ stack)
    else reach g (name :: reached) stack
termination_by stack => g.cost reached g.keys + stack.length
decreasing_by
  · exact Nat.lt_succ_self _
  · have hlt := cost_cons_lt (g := g) ((g.contains_iff_mem_keys name).1 ‹_›) ‹_›
    simp only [List.length_append, List.length_reverse, List.length_cons]
    omega
  · have hle := g.cost_cons_le reached name g.keys
    simp only [List.length_cons]
    omega

end ImportGraph

namespace Workspace

/-- The imports of a program. -/
def importGraph (program : Program) : ImportGraph :=
  program.units.mapValues fun _ u => u.imports

/-- The source names of documents. -/
def namesOf (uris : List String) : Action Workspace (List String) :=
  Action.ofExcept .uri (uris.mapM sourceNameFor)

/-- The closed documents whose names are not among those reached. -/
def unreachable (store : DocumentStore) (reached : List String) :
    List Document → Except Uri.UriError (List String)
  | [] => .ok []
  | d :: rest =>
    if store.isOpen d.uri then unreachable store reached rest
    else do
      let name ← sourceNameFor d.uri
      let others ← unreachable store reached rest
      return if reached.contains name then others else d.uri :: others

/-- Forgets the closed documents that no open one imports, and lists them.  The client is told that
they have no diagnostics. -/
def collectGarbage : Action Workspace (List String) := do
  let ws ← Action.state
  match ws.snapshot with
  | none => return []
  | some snapshot =>
    let opened ← namesOf ws.store.openUris
    let reached := (importGraph snapshot.program).reach [] opened
    let garbage ← Action.ofExcept .uri (unreachable ws.store reached ws.store.toList)
    let (store, evicted) := ws.store.evict garbage
    Action.update fun ws => { ws with store }
    Action.forAll (publish · none []) evicted
    return evicted

end Workspace

end LanguageServer
