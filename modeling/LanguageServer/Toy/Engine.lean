import LanguageServer.Toy.Binding
import LanguageServer.Toy.Gathering

/-!
# The toy compiler

## Main definitions

* `compile` — gathers the sources, then binds them in the order of their names.
* `engine` — the toy compiler as an engine.
-/

namespace LanguageServer.Toy

/-- Binds what was gathered.  What was found while reading comes first. -/
def bindAll (g : Gathering) : Program :=
  let (c, units) :=
    bindUnits g.units ⟨.empty, g.draft.findings⟩ (Text.sorted g.units.keys)
  { units := units.mapValues fun _ u => u.toUnit
    declarations := g.draft.declarations
    findings := c.findings }

/-- Compiles a program; the number bounds how many names of sources are taken up. -/
def compile (budget : Nat) (input : EngineInput) : Compilation :=
  (gather budget input).andThen fun g => .done (bindAll g)

/-- The target versions of the toy compiler. -/
def supportedVersions : List String := ["v1", "v2"]

/-- The toy compiler as an engine. -/
def engine (budget : Nat) : Engine where
  accepts := acceptListed supportedVersions
  compile := compile budget

/-- A bound that no program of a client comes near. -/
def ampleBudget : Nat := 1000000000

end LanguageServer.Toy
