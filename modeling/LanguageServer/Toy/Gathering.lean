import LanguageServer.Compiler.Engine
import LanguageServer.Text.Order
import LanguageServer.Toy.Parser

/-!
# Gathering the sources of a toy program

Starting from the sources that the compiler is handed, every import is resolved; a
source that is not known yet is asked for.  An import that cannot be read is left out.

Relative imports can spell ever new names for one file, so there need not be an end.
The number of names that are taken up is therefore bounded, and exceeding the bound is
told apart from every result.

## Main definitions

* `resolveImport` — the name of an imported source.
* `Gathering` — what is known, what is parsed, and what is waiting.
* `gather` — takes up names until none is waiting.
-/

namespace LanguageServer.Toy

/-- Whether an import path is seen from the directory of its importer. -/
def isRelativeImport (path : String) : Bool := Text.beginsWith "./" path || Text.beginsWith "../" path

/-- The name of the source that `importer` imports by `path`. -/
def resolveImport (rules : List Remapping) (importer path : String) : String :=
  let path := remapPath rules importer path
  if isRelativeImport path then normalisePath (joinPaths (directoryOf importer) path) else path

/-- The item with its import resolved. -/
def Item.resolved (rules : List Remapping) (importer : String) : Item → Item
  | .importing path span _ => .importing path span (some (resolveImport rules importer path))
  | item => item

/-- The unit with its imports resolved. -/
def SourceFile.resolved (rules : List Remapping) (u : SourceFile) : SourceFile :=
  { u with items := u.items.map (Item.resolved rules u.source) }

/-- The sources that a unit imports, in order. -/
def SourceFile.imports (u : SourceFile) : List String := u.items.filterMap Item.source?

/-- What is known while sources are gathered. -/
structure Gathering where
  /-- The texts by name. -/
  texts : Table String String
  /-- The units parsed so far. -/
  units : Table String SourceFile
  /-- The names that are waiting to be taken up. -/
  pending : List String
  draft : Draft

namespace Gathering

/-- Makes the imported sources wait, asking for those that are not known. -/
def askAll (g : Gathering) : List String → Compiling Gathering
  | [] => .done g
  | name :: rest =>
    if g.texts.contains name then askAll { g with pending := g.pending ++ [name] } rest
    else
      .ask sourceKind name fun
        | .ok text =>
          askAll { g with texts := g.texts.insert name text, pending := g.pending ++ [name] } rest
        | .error _ => askAll g rest

/-- Parses the source `name` with its imports resolved. -/
def parse (rules : List Remapping) (g : Gathering) (name : String) : SourceFile × Gathering :=
  let (u, draft) := parseFile name ((g.texts.find? name).getD "") g.draft
  let u := u.resolved rules
  (u, { g with units := g.units.insert name u, draft })

/-- Takes up names until none is waiting; the number bounds how many. -/
def run (rules : List Remapping) : Nat → Gathering → Compiling Gathering
  | 0, g => if g.pending.isEmpty then .done g else .unfinished
  | n + 1, g =>
    match g.pending with
    | [] => .done g
    | name :: rest =>
      let g := { g with pending := rest }
      if g.units.contains name then run rules n g
      else
        let (u, g) := g.parse rules name
        (g.askAll u.imports).andThen (run rules n)

/-- The start: the given sources wait in the order of their names. -/
def start (sources : Table String String) : Gathering :=
  { texts := sources, units := .empty, pending := Text.sorted sources.keys, draft := .empty }

end Gathering

/-- Gathers all sources of a program; the number bounds how many names are taken up. -/
def gather (budget : Nat) (input : EngineInput) : Compiling Gathering :=
  Gathering.run input.remappings budget (.start input.sources)

end LanguageServer.Toy
