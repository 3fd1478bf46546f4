import LanguageServer.Toy.Tree

/-!
# Parsing the toy language

A unit holds import directives, variables, functions, assignments and expressions; the
body of a function holds variables, returns, assignments and expressions.  All but
functions end with a semicolon.  Expressions are literals, names, calls and sums.

A statement that does not fit is reported and skipped: reading goes on behind the next
semicolon or at the next closing brace.  What was declared before the mistake stays
declared.

## Main definitions

* `SyntaxError` — what is wrong, and at which token.
* `Draft` — the declarations and findings so far.
* `Parser` — a reader of tokens; an error keeps what was read and declared.
* `parseFile` — the unit of a text.
-/

namespace LanguageServer.Toy

/-! ## Errors -/

/-- What is wrong at a token. -/
inductive SyntaxProblem where
  | missing (text : String)
  | noIdentifier
  | noExpression
  | noImportPath
  | importInside
  | functionInside
  | returnOutside
  deriving DecidableEq, Repr

/-- A problem and the token at which it shows. -/
structure SyntaxError where
  problem : SyntaxProblem
  token : Token
  deriving DecidableEq, Repr

/-- The wording of a syntax error. -/
def SyntaxError.message (e : SyntaxError) : String :=
  match e.problem with
  | .missing text => "Expected '" ++ text ++ "' but got '" ++ e.token.shown ++ "'"
  | .noIdentifier => "Expected identifier but got '" ++ e.token.shown ++ "'"
  | .noExpression => "Expected expression but got '" ++ e.token.shown ++ "'"
  | .noImportPath => "Expected import path."
  | .importInside => "Imports are only allowed at file level."
  | .functionInside => "Nested functions are not supported."
  | .returnOutside => "Return outside of function."

/-- The codes of the findings of the toy compiler. -/
inductive Code where
  | syntaxError
  | undeclared
  | redeclared
  | typeMismatch
  | shadowing
  deriving DecidableEq, Repr

/-- The number of a code. -/
def Code.number : Code → Int
  | .syntaxError => 2314
  | .undeclared => 7576
  | .redeclared => 2333
  | .typeMismatch => 9574
  | .shadowing => 2519

/-- The finding for a syntax error. -/
def SyntaxError.finding (source : String) (e : SyntaxError) : Finding :=
  { severity := .error, message := e.message, location := some (e.token.span.within source)
    code := some Code.syntaxError.number }

/-! ## The state of reading -/

/-- What has been declared and found so far, over all units. -/
structure Draft where
  declarations : Table Int Declaration
  findings : List Finding

/-- The draft before anything is read. -/
def Draft.empty : Draft := ⟨.empty, []⟩

/-- The handle of the next declaration; handles are counted from one. -/
def Draft.nextHandle (d : Draft) : Int := d.declarations.size + 1

/-- The draft with one more declaration. -/
def Draft.declare (d : Draft) (source : String) (name : Name) : Draft :=
  let handle := d.nextHandle
  { d with declarations := d.declarations.insert handle (declarationOf source name handle) }

/-- The draft with one more finding. -/
def Draft.report (d : Draft) (f : Finding) : Draft := { d with findings := d.findings ++ [f] }

/-- The tokens ahead, the end behind them, and the draft. -/
structure ParserState where
  ahead : List Token
  finish : Token
  draft : Draft

/-- A reader of tokens.  An error keeps what was read and declared before it. -/
abbrev Parser (α : Type) := EStateM SyntaxError ParserState α

namespace Parser

/-- The next token. -/
def current : Parser Token := do
  let s ← get
  return s.ahead.headD s.finish

/-- The token behind the next one. -/
def following : Parser Token := do
  let s ← get
  return s.ahead.tail.headD s.finish

/-- Takes the next token; the end stays where it is. -/
def advance : Parser Token := do
  let token ← current
  modify fun s => { s with ahead := s.ahead.tail }
  return token

/-- Whether the next token is the given word or mark. -/
def check (text : String) : Parser Bool := return (← current).is text

/-- Fails at the next token. -/
def reject {α : Type} (problem : SyntaxProblem) : Parser α := do
  throw ⟨problem, ← current⟩

/-- Takes the given word or mark. -/
def expect (text : String) : Parser Token := do
  if ← check text then advance else reject (.missing text)

/-- Takes an identifier. -/
def identifier : Parser Name := do
  if (← current).isIdentifier then return (← advance).toName else reject .noIdentifier

/-- Declares a name and yields its handle. -/
def declare (source : String) (name : Name) : Parser Int := do
  let handle := (← get).draft.nextHandle
  modify fun s => { s with draft := s.draft.declare source name }
  return handle

/-! ## Expressions

The number bounds how deep calls can be nested and how many operands can follow; the
tokens ahead are always enough for it, since every step takes one. -/

/-- The place from the start of the first of some expressions to the end of the last. -/
def spanOf (first : Expr) (rest : List Expr) : Span :=
  ⟨first.span.start, (rest.getLastD first).span.stop⟩

mutual

/-- A literal, a name or a call. -/
def term : Nat → Parser Expr
  | 0 => reject .noExpression
  | n + 1 => do
    let token ← current
    match token.kind with
    | .number => let _ ← advance; return .number token.span
    | .string => let _ ← advance; return .string token.span
    | _ =>
      if token.isIdentifier then
        let _ ← advance
        if ← check "(" then
          let _ ← advance
          let arguments ← (do
            if ← check ")" then return []
            else
              let first ← expression n
              return first :: (← moreArguments n))
          let close ← expect ")"
          return .call ⟨token.toName, none⟩ arguments ⟨token.span.start, close.span.stop⟩
        else return .use ⟨token.toName, none⟩
      else reject .noExpression

/-- A term, or a sum of terms. -/
def expression : Nat → Parser Expr
  | 0 => reject .noExpression
  | n + 1 => do
    let first ← term n
    let rest ← moreOperands n
    if rest.isEmpty then return first else return .sum (first :: rest) (spanOf first rest)

/-- The operands behind the first one. -/
def moreOperands : Nat → Parser (List Expr)
  | 0 => return []
  | n + 1 => do
    if ← check "+" then
      let _ ← advance
      let operand ← term n
      return operand :: (← moreOperands n)
    else return []

/-- The arguments behind the first one. -/
def moreArguments : Nat → Parser (List Expr)
  | 0 => return []
  | n + 1 => do
    if ← check "," then
      let _ ← advance
      let argument ← expression n
      return argument :: (← moreArguments n)
    else return []

end

/-- An expression as long as the tokens ahead allow. -/
def anExpression : Parser Expr := do expression (2 * (← get).ahead.length + 2)

/-! ## Statements -/

/-- An expression behind an equals sign, if there is one. -/
def firstValue : Parser (Option Expr) := do
  if ← check "=" then
    let _ ← advance
    return some (← anExpression)
  else return none

/-- The name of a type behind a colon, if there is one. -/
def typeName : Parser (Option Name) := do
  if ← check ":" then
    let _ ← advance
    return some (← identifier)
  else return none

/-- A variable; it is declared once all of it is read. -/
def variableDeclaration (source : String) : Parser Statement := do
  let start ← advance
  let name ← identifier
  let typeName ← typeName
  let value ← firstValue
  let close ← expect ";"
  let handle ← declare source name
  return .variable { name, typeName, value, span := ⟨start.span.start, close.span.stop⟩, handle }

/-- An assignment. -/
def assignment : Parser Statement := do
  let name ← advance
  let _ ← expect "="
  let value ← anExpression
  let close ← expect ";"
  return .assignment ⟨name.toName, none⟩ value ⟨name.span.start, close.span.stop⟩

/-- A return from a function. -/
def giveBack : Parser Statement := do
  let start ← advance
  let value ← (do if ← check ";" then return none else return some (← anExpression))
  let close ← expect ";"
  return .giveBack value ⟨start.span.start, close.span.stop⟩

/-- An expression as a statement. -/
def expressionStatement : Parser Statement := do
  let value ← anExpression
  let close ← expect ";"
  return .expression value ⟨value.span.start, close.span.stop⟩

/-- An assignment or an expression, told apart by the token behind the first one. -/
def assignmentOrExpression : Parser Statement := do
  if (← current).isIdentifier && (← following).text == "=" then assignment
  else expressionStatement

/-- A statement in the body of a function. -/
def bodyStatement (source : String) : Parser Statement := do
  let token ← current
  if token.is "import" then reject .importInside
  else if token.is "var" then variableDeclaration source
  else if token.is "function" then reject .functionInside
  else if token.is "return" then giveBack
  else assignmentOrExpression

/-! ## Going on after a mistake -/

/-- Whether reading can go on at a token: it closes a statement or a body. -/
def isStop (t : Token) : Bool := t.is ";" || t.is "\x7d"

/-- The tokens at which reading goes on: behind the next semicolon or at the next closing brace.  If
nothing was taken before the mistake, the next token is passed over. -/
def resume (start : Nat) (ahead : List Token) : List Token :=
  let ahead := if ahead.length = start then ahead.tail else ahead
  match ahead.dropWhile (!isStop ·) with
  | [] => []
  | t :: rest => if t.is ";" then rest else t :: rest

/-- Reads with `p`; a mistake is reported and passed over. -/
def orSkip {α : Type} (source : String) (p : Parser α) : Parser (Option α) := fun s =>
  match p s with
  | .ok a s' => .ok (some a) s'
  | .error e s' =>
    .ok none
      { s' with
        ahead := resume s.ahead.length s'.ahead
        draft := s'.draft.report (e.finding source) }

/-! ## Functions and units -/

/-- The parameters behind the first one. -/
def moreParameters (source : String) : Nat → Parser (List Parameter)
  | 0 => return []
  | n + 1 => do
    if ← check "," then
      let _ ← advance
      let name ← identifier
      let handle ← declare source name
      return ⟨name, handle⟩ :: (← moreParameters source n)
    else return []

/-- The parameters of a function; each is declared as soon as it is read. -/
def parameters (source : String) : Parser (List Parameter) := do
  if ← check ")" then return []
  else
    let name ← identifier
    let handle ← declare source name
    return ⟨name, handle⟩ :: (← moreParameters source (← get).ahead.length)

/-- The statements up to the closing brace of a body. -/
def body (source : String) : Nat → Parser (List Statement)
  | 0 => return []
  | n + 1 => do
    if ← check "\x7d" then return []
    else if (← current).kind == .finish then reject (.missing "\x7d")
    else
      let statement ← orSkip source (bodyStatement source)
      return statement.toList ++ (← body source n)

/-- A function; it is declared behind its parameters and variables. -/
def functionDefinition (source : String) : Parser Item := do
  let start ← advance
  let name ← identifier
  let _ ← expect "("
  let parameters ← parameters source
  let _ ← expect ")"
  let _ ← expect "\x7b"
  let body ← body source ((← get).ahead.length + 1)
  let close ← advance
  let handle ← declare source name
  return .function
    { name, parameters, body, span := ⟨start.span.start, close.span.stop⟩, handle }

/-- A string without its quotes. -/
def unquoted (text : String) : String := String.ofList (text.toList.tail.dropLast)

/-- An import directive. -/
def importDirective : Parser Item := do
  let start ← advance
  let path ← current
  if path.kind == .string then
    let _ ← advance
    let close ← expect ";"
    return .importing (unquoted path.text) ⟨start.span.start, close.span.stop⟩ none
  else reject .noImportPath

/-- An item of a unit. -/
def item (source : String) : Parser Item := do
  let token ← current
  if token.is "import" then importDirective
  else if token.is "var" then return .statement (← variableDeclaration source)
  else if token.is "function" then functionDefinition source
  else if token.is "return" then reject .returnOutside
  else return .statement (← assignmentOrExpression)

/-- The items up to the end. -/
def items (source : String) : Nat → Parser (List Item)
  | 0 => return []
  | n + 1 => do
    if (← current).kind == .finish then return []
    else
      let item ← orSkip source (item source)
      return item.toList ++ (← items source n)

end Parser

/-- Reads the unit of a text into a draft. -/
def parseFile (source : String) (text : String) (draft : Draft) : SourceFile × Draft :=
  let cs := text.toList
  let ahead := tokens cs
  let unit (items : List Item) : SourceFile := { source, length := cs.length, items }
  match Parser.items source (ahead.length + 1) { ahead, finish := endToken cs, draft } with
  | .ok items s => (unit items, s.draft)
  | .error _ s => (unit [], s.draft)

end LanguageServer.Toy
