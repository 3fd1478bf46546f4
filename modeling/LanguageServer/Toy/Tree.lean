import LanguageServer.Compiler.Program
import LanguageServer.Toy.Token

/-!
# Trees of the toy language

A unit is a list of directives, functions and statements.  Declarations bear the handle
that they got when they were read; uses of names bear the handle of what they refer to,
once it is known.

## Main definitions

* `Expr`, `Statement`, `Item` — the constructs of the language.
* `SourceFile` — a unit with its name.
* `SourceFile.toUnit` — the syntax tree that the server sees.
-/

namespace LanguageServer.Toy

/-- A name in its place. -/
structure Name where
  text : String
  span : Span
  deriving DecidableEq, Repr

/-- The name that a token spells. -/
def Token.toName (t : Token) : Name := ⟨t.text, t.span⟩

/-- A use of a name, with the handle of what it refers to. -/
structure Use where
  name : Name
  target : Option Int := none
  deriving DecidableEq, Repr

/-- Expressions; a sum has two operands or more. -/
inductive Expr where
  | number (span : Span)
  | string (span : Span)
  | use (u : Use)
  | call (callee : Use) (arguments : List Expr) (span : Span)
  | sum (operands : List Expr) (span : Span)

/-- A variable with its handle, the type that it is declared with, and its first value. -/
structure Variable where
  name : Name
  typeName : Option Name
  value : Option Expr
  span : Span
  handle : Int

/-- The parameter of a function, with its handle. -/
structure Parameter where
  name : Name
  handle : Int

/-- Statements. -/
inductive Statement where
  | expression (value : Expr) (span : Span)
  | variable (v : Variable)
  | assignment (target : Use) (value : Expr) (span : Span)
  | giveBack (value : Option Expr) (span : Span)

/-- A function with its handle. -/
structure Function where
  name : Name
  parameters : List Parameter
  body : List Statement
  span : Span
  handle : Int

/-- What stands at the top level of a unit; an import names its source once it is resolved. -/
inductive Item where
  | importing (path : String) (span : Span) (source : Option String)
  | function (f : Function)
  | statement (s : Statement)

/-- A unit: the name of its source, the length of its text, and its items. -/
structure SourceFile where
  source : String
  length : Nat
  items : List Item

/-! ## Places -/

/-- A place in a source. -/
def Span.within (source : String) (s : Span) : SourceLocation := ⟨source, s.start, s.stop⟩

/-- The place of an expression. -/
def Expr.span : Expr → Span
  | .number span => span
  | .string span => span
  | .use u => u.name.span
  | .call _ _ span => span
  | .sum _ span => span

/-- The name and the handle that an item declares. -/
def Item.declares? : Item → Option (Name × Int)
  | .function f => some (f.name, f.handle)
  | .statement (.variable v) => some (v.name, v.handle)
  | _ => none

/-- The source that an item imports. -/
def Item.source? : Item → Option String
  | .importing _ _ source => source
  | _ => none

/-- A declaration in a source. -/
def declarationOf (source : String) (name : Name) (handle : Int) : Declaration :=
  ⟨handle, name.text, name.span.within source⟩

/-- The declarations at the top level of a unit, in order. -/
def SourceFile.declarations (u : SourceFile) : List Declaration :=
  u.items.filterMap fun item => item.declares?.map fun d => declarationOf u.source d.1 d.2

/-! ## The tree that the server sees -/

/-- The node of a use of a name. -/
def Use.toNode (source : String) (access : Access) (u : Use) : Node :=
  { label :=
    { kind := "Identifier", location := u.name.span.within source, name := some u.name.text
      references := u.target, access } }

mutual

/-- The node of an expression. -/
def Expr.toNode (source : String) : Expr → Node
  | .number span => { label := { kind := "NumberLiteral", location := span.within source } }
  | .string span => { label := { kind := "StringLiteral", location := span.within source } }
  | .use u => u.toNode source .read
  | .call callee arguments span =>
    { label := { kind := "FunctionCall", location := span.within source }
      children := callee.toNode source .read :: Expr.toNodes source arguments }
  | .sum operands span =>
    { label := { kind := "BinaryOperation", location := span.within source }
      children := Expr.toNodes source operands }

/-- The nodes of several expressions. -/
def Expr.toNodes (source : String) : List Expr → List Node
  | [] => []
  | e :: rest => e.toNode source :: Expr.toNodes source rest

end

/-- The node of a statement. -/
def Statement.toNode (source : String) : Statement → Node
  | .expression value span =>
    { label := { kind := "ExpressionStatement", location := span.within source }
      children := [value.toNode source] }
  | .variable v =>
    { label :=
      { kind := "VariableDeclaration", location := v.span.within source
        name := some v.name.text, declares := some v.handle }
      children := (v.value.map (·.toNode source)).toList }
  | .assignment target value span =>
    { label := { kind := "Assignment", location := span.within source }
      children := [target.toNode source .write, value.toNode source] }
  | .giveBack value span =>
    { label := { kind := "Return", location := span.within source }
      children := (value.map (·.toNode source)).toList }

/-- The node of a parameter. -/
def Parameter.toNode (source : String) (p : Parameter) : Node :=
  { label :=
    { kind := "Parameter", location := p.name.span.within source, name := some p.name.text
      declares := some p.handle } }

/-- The node of an item. -/
def Item.toNode (source : String) : Item → Node
  | .importing path span target =>
    { label :=
      { kind := "ImportDirective", location := span.within source, importPath := some path
        importedSource := target } }
  | .function f =>
    { label :=
      { kind := "FunctionDefinition", location := f.span.within source
        name := some f.name.text, declares := some f.handle }
      children := f.parameters.map (·.toNode source) ++ f.body.map (·.toNode source) }
  | .statement s => s.toNode source

/-- The syntax tree of a unit. -/
def SourceFile.toUnit (u : SourceFile) : CompiledUnit :=
  { source := u.source
    root :=
    { label := { kind := "SourceUnit", location := (⟨0, u.length⟩ : Span).within u.source }
      children := u.items.map (·.toNode u.source) } }

end LanguageServer.Toy
