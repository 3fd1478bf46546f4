import LanguageServer.Toy.Parser

/-!
# Scopes and types of the toy language

A name means the innermost declaration of that name: a parameter or variable of the
function that was declared before the use, else what the unit declares at its top
level, else what an imported unit declares there.  Of several declarations in one scope
the first one counts and the others are reported; of several imported ones the last one
counts.

Units are bound one after the other in the order of their names, and a variable has a
type as soon as its declaration has been looked at.

## Main definitions

* `Scope`, `Scopes.find?` — what names mean.
* `Checker` — the types and findings so far.
* `SourceFile.bind` — a unit with the targets of its uses.
-/

namespace LanguageServer.Toy

/-! ## Scopes -/

/-- The declarations of a scope by name. -/
abbrev Scope := Table String Declaration

/-- The scopes that a use can see.  Inside a function there is a local one. -/
structure Scopes where
  imported : Scope
  globals : Scope
  locals : Option Scope

/-- The scopes from the innermost outward. -/
def Scopes.inward (s : Scopes) : List Scope := s.locals.toList ++ [s.globals, s.imported]

/-- What a name means: the innermost declaration of it. -/
def findInnermost (name : String) (scopes : List Scope) : Option Declaration :=
  scopes.findSome? (·.find? name)

/-- What a name means. -/
def Scopes.find? (s : Scopes) (name : String) : Option Declaration :=
  findInnermost name s.inward

/-- The use with its target. -/
def Scopes.resolve (s : Scopes) (u : Use) : Use :=
  { u with target := (s.find? u.name.text).map (·.handle) }

/-! ## Uses in expressions -/

mutual

/-- Replaces every use in an expression. -/
def Expr.mapUses (f : Use → Use) : Expr → Expr
  | .number span => .number span
  | .string span => .string span
  | .use u => .use (f u)
  | .call callee arguments span => .call (f callee) (Expr.mapUsesAll f arguments) span
  | .sum operands span => .sum (Expr.mapUsesAll f operands) span

/-- Replaces every use in several expressions. -/
def Expr.mapUsesAll (f : Use → Use) : List Expr → List Expr
  | [] => []
  | e :: rest => e.mapUses f :: Expr.mapUsesAll f rest

end

mutual

/-- The uses in an expression, from left to right. -/
def Expr.uses : Expr → List Use
  | .number _ => []
  | .string _ => []
  | .use u => [u]
  | .call callee arguments _ => callee :: Expr.usesAll arguments
  | .sum operands _ => Expr.usesAll operands

/-- The uses in several expressions, from left to right. -/
def Expr.usesAll : List Expr → List Use
  | [] => []
  | e :: rest => e.uses ++ Expr.usesAll rest

end

/-! ## Types -/

/-- The types of the language. -/
inductive Ty where
  | int
  | string
  deriving DecidableEq, Repr

/-- The name of a type. -/
def Ty.name : Ty → String
  | .int => "int"
  | .string => "string"

/-- The type of a name. -/
def Ty.ofName? (name : String) : Option Ty := [Ty.int, Ty.string].find? (·.name = name)

/-- The types of declarations by handle, as far as they are known. -/
abbrev Types := Table Int Ty

/-- The type of what a use refers to. -/
def Types.ofUse? (t : Types) (u : Use) : Option Ty := u.target.bind t.find?

/-- The type that all of some operands have, if there is one. -/
def commonType? : List (Option Ty) → Option Ty
  | [] => none
  | t :: rest => if rest.all (· = t) then t else none

mutual

/-- The type of an expression, if it is known.  Calls have none, and neither has a sum of operands
of different types. -/
def Types.ofExpr? (t : Types) : Expr → Option Ty
  | .number _ => some .int
  | .string _ => some .string
  | .use u => t.ofUse? u
  | .call _ _ _ => none
  | .sum operands _ => commonType? (Types.ofExprs t operands)

/-- The types of several expressions. -/
def Types.ofExprs (t : Types) : List Expr → List (Option Ty)
  | [] => []
  | e :: rest => Types.ofExpr? t e :: Types.ofExprs t rest

end

/-! ## Findings -/

/-- The finding for a use that means nothing. -/
def undeclared (source : String) (u : Use) : Finding :=
  { severity := .error, message := "Undeclared identifier."
    location := some (u.name.span.within source), code := some Code.undeclared.number }

/-- The finding for a declaration whose name is taken in its scope. -/
def redeclared (d previous : Declaration) : Finding :=
  { severity := .error, message := "Identifier already declared.", location := some d.location
    code := some Code.redeclared.number
    related := [⟨"The previous declaration is here:", previous.location⟩] }

/-- The finding for a declaration that hides one of an outer scope. -/
def shadowing (d hidden : Declaration) : Finding :=
  { severity := .warning, message := "This declaration shadows an existing declaration."
    location := some d.location, code := some Code.shadowing.number
    related := [⟨"The shadowed declaration is here:", hidden.location⟩] }

/-- The finding for a type that does not exist. -/
def unknownType (source : String) (name : Name) : Finding :=
  { severity := .error, message := "Identifier not found or not unique."
    location := some (name.span.within source), code := some Code.undeclared.number }

/-- The finding for a value of the wrong type. -/
def typeMismatch (source : String) (actual expected : Ty) (value : Expr) : Finding :=
  { severity := .error
    message := "Type " ++ actual.name ++ " is not implicitly convertible to expected type "
      ++ expected.name ++ "."
    location := some (value.span.within source), code := some Code.typeMismatch.number }

/-! ## Checking -/

/-- The types and findings so far. -/
structure Checker where
  types : Types
  findings : List Finding

namespace Checker

/-- One more finding. -/
def report (c : Checker) (f : Finding) : Checker := { c with findings := c.findings ++ [f] }

/-- Several more findings. -/
def reportAll (c : Checker) (fs : List Finding) : Checker :=
  { c with findings := c.findings ++ fs }

/-- Adds a declaration to its scope.  A name that is taken there is reported and stays with the
earlier declaration; one that is taken in an outer scope is reported and hidden.  The outer scopes
stand from the innermost outward. -/
def add (c : Checker) (d : Declaration) (scope : Scope) (outer : List Scope) :
    Checker × Scope :=
  match scope.find? d.name with
  | some previous => (c.report (redeclared d previous), scope)
  | none =>
    let c := match findInnermost d.name outer with
      | some hidden => c.report (shadowing d hidden)
      | none => c
    (c, scope.insert d.name d)

/-- Adds declarations one after the other. -/
def addAll (c : Checker) (scope : Scope) (outer : List Scope) :
    List Declaration → Checker × Scope
  | [] => (c, scope)
  | d :: rest =>
    let (c, scope) := c.add d scope outer
    c.addAll scope outer rest

/-- Binds the uses of an expression and reports those that mean nothing. -/
def bindExpr (source : String) (scopes : Scopes) (c : Checker) (e : Expr) : Checker × Expr :=
  let e := e.mapUses scopes.resolve
  (c.reportAll ((e.uses.filter (·.target.isNone)).map (undeclared source)), e)

/-- Binds an expression that may be missing. -/
def bindExpr? (source : String) (scopes : Scopes) (c : Checker) :
    Option Expr → Checker × Option Expr
  | none => (c, none)
  | some e =>
    let (c, e) := c.bindExpr source scopes e
    (c, some e)

/-- Reports a value whose type is known not to be the expected one. -/
def checkAssignable (source : String) (c : Checker) (expected : Option Ty) (value : Expr) :
    Checker :=
  match expected, c.types.ofExpr? value with
  | some expected, some actual =>
    if actual = expected then c else c.report (typeMismatch source actual expected value)
  | _, _ => c

/-- Gives a variable its type: the one that it is declared with, else that of its first value. -/
def checkVariable (source : String) (c : Checker) (v : Variable) : Checker :=
  match v.typeName with
  | none =>
    match v.value.bind c.types.ofExpr? with
    | some t => { c with types := c.types.insert v.handle t }
    | none => c
  | some name =>
    match Ty.ofName? name.text with
    | none => c.report (unknownType source name)
    | some t =>
      let c := { c with types := c.types.insert v.handle t }
      match v.value with
      | none => c
      | some value => c.checkAssignable source (some t) value

/-- Adds a variable to the local scope; at the top level it is in its scope already. -/
def addLocal (source : String) (scopes : Scopes) (c : Checker) (v : Variable) :
    Checker × Scopes :=
  match scopes.locals with
  | none => (c, scopes)
  | some locals =>
    let d := declarationOf source v.name v.handle
    let (c, locals) := c.add d locals [scopes.globals, scopes.imported]
    (c, { scopes with locals := some locals })

/-- Binds a statement.  A variable is visible behind its declaration. -/
def bindStatement (source : String) (scopes : Scopes) (c : Checker) :
    Statement → Checker × Scopes × Statement
  | .expression value span =>
    let (c, value) := c.bindExpr source scopes value
    (c, scopes, .expression value span)
  | .variable v =>
    let (c, value) := c.bindExpr? source scopes v.value
    let v := { v with value }
    let (c, scopes) := c.addLocal source scopes v
    (c.checkVariable source v, scopes, .variable v)
  | .assignment target value span =>
    let (c, bound) := c.bindExpr source scopes (.use target)
    let target := match bound with
      | .use u => u
      | _ => target
    let (c, value) := c.bindExpr source scopes value
    (c.checkAssignable source (c.types.ofUse? target) value, scopes,
      .assignment target value span)
  | .giveBack value span =>
    let (c, value) := c.bindExpr? source scopes value
    (c, scopes, .giveBack value span)

/-- Binds statements one after the other. -/
def bindStatements (source : String) (scopes : Scopes) (c : Checker) :
    List Statement → Checker × List Statement
  | [] => (c, [])
  | s :: rest =>
    let (c, scopes, s) := c.bindStatement source scopes s
    let (c, rest) := c.bindStatements source scopes rest
    (c, s :: rest)

/-- Binds an item.  The parameters of a function are its first local declarations. -/
def bindItem (source : String) (imported globals : Scope) (c : Checker) :
    Item → Checker × Item
  | .importing path span target => (c, .importing path span target)
  | .function f =>
    let declared := f.parameters.map fun p => declarationOf source p.name p.handle
    let (c, locals) := c.addAll .empty [globals, imported] declared
    let (c, body) := c.bindStatements source ⟨imported, globals, some locals⟩ f.body
    (c, .function { f with body })
  | .statement s =>
    let (c, _, s) := c.bindStatement source ⟨imported, globals, none⟩ s
    (c, .statement s)

/-- Binds items one after the other. -/
def bindItems (source : String) (imported globals : Scope) (c : Checker) :
    List Item → Checker × List Item
  | [] => (c, [])
  | i :: rest =>
    let (c, i) := c.bindItem source imported globals i
    let (c, rest) := c.bindItems source imported globals rest
    (c, i :: rest)

end Checker

/-! ## Units -/

/-- What the imports of a unit declare, the last one of a name.  An item that imports nothing counts
as one that imports the source with the empty name. -/
def importedScope (units : Table String SourceFile) (u : SourceFile) : Scope :=
  Table.ofList <| u.items.flatMap fun item =>
    match units.find? (item.source?.getD "") with
    | none => []
    | some other => other.declarations.map fun d => (d.name, d)

/-- Binds a unit among the units of its program. -/
def SourceFile.bind (units : Table String SourceFile) (u : SourceFile) (c : Checker) :
    Checker × SourceFile :=
  let (c, globals) := c.addAll .empty [] u.declarations
  let (c, items) := c.bindItems u.source (importedScope units u) globals u.items
  (c, { u with items })

/-- Binds the units with the given names one after the other. -/
def bindUnits (units : Table String SourceFile) (c : Checker) :
    List String → Checker × Table String SourceFile
  | [] => (c, units)
  | name :: rest =>
    match units.find? name with
    | none => bindUnits units c rest
    | some u =>
      let (c, u) := u.bind units c
      bindUnits (units.insert name u) c rest

end LanguageServer.Toy
