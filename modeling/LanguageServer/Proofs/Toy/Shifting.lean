import LanguageServer.Proofs.Compiler.Shifting
import LanguageServer.Toy.Parser

/-!
# Reading the same tokens at other offsets

A reader looks at the sorts and the spellings of tokens.  It hands the places of tokens on,
but nothing that it does depends on them.  So the same tokens at other offsets are read as
the same unit at other offsets, with the same handles and the same findings.

## Main definitions

* `Expr.shift`, `Item.shift`, `SourceFile.shift` — a unit at other offsets.
* `Respells` — a text holds the tokens of another one at other offsets.
* `Parser.Shifts` — a reader does the same at other offsets.

## Main statements

* `SourceFile.toUnit_shift` — the tree of a unit at other offsets.
* `parseFile_shift` — what is read of a text that holds the same tokens.
-/

namespace LanguageServer.Toy

/-! ## Trees at other offsets -/

/-- The span at other offsets. -/
def Span.shift (f : Nat → Nat) (s : Span) : Span := ⟨f s.start, f s.stop⟩

/-- The token at other offsets. -/
def Token.shift (f : Nat → Nat) (t : Token) : Token := { t with span := t.span.shift f }

/-- The name at other offsets. -/
def Name.shift (f : Nat → Nat) (n : Name) : Name := { n with span := n.span.shift f }

/-- The use at other offsets. -/
def Use.shift (f : Nat → Nat) (u : Use) : Use := { u with name := u.name.shift f }

mutual

/-- The expression at other offsets. -/
def Expr.shift (f : Nat → Nat) : Expr → Expr
  | .number span => .number (span.shift f)
  | .string span => .string (span.shift f)
  | .use u => .use (u.shift f)
  | .call callee arguments span => .call (callee.shift f) (Expr.shiftAll f arguments) (span.shift f)
  | .sum operands span => .sum (Expr.shiftAll f operands) (span.shift f)

/-- The expressions at other offsets. -/
def Expr.shiftAll (f : Nat → Nat) : List Expr → List Expr
  | [] => []
  | e :: rest => e.shift f :: Expr.shiftAll f rest

end

/-- The variable at other offsets. -/
def Variable.shift (f : Nat → Nat) (v : Variable) : Variable :=
  { v with
    name := v.name.shift f, typeName := v.typeName.map (·.shift f), value := v.value.map (·.shift f)
    span := v.span.shift f }

/-- The parameter at other offsets. -/
def Parameter.shift (f : Nat → Nat) (p : Parameter) : Parameter := { p with name := p.name.shift f }

/-- The statement at other offsets. -/
def Statement.shift (f : Nat → Nat) : Statement → Statement
  | .expression value span => .expression (value.shift f) (span.shift f)
  | .variable v => .variable (v.shift f)
  | .assignment target value span => .assignment (target.shift f) (value.shift f) (span.shift f)
  | .giveBack value span => .giveBack (value.map (·.shift f)) (span.shift f)

/-- The function at other offsets. -/
def Function.shift (f : Nat → Nat) (g : Function) : Function :=
  { g with
    name := g.name.shift f, parameters := g.parameters.map (·.shift f)
    body := g.body.map (·.shift f), span := g.span.shift f }

/-- The item at other offsets. -/
def Item.shift (f : Nat → Nat) : Item → Item
  | .importing path span source => .importing path (span.shift f) source
  | .function g => .function (g.shift f)
  | .statement s => .statement (s.shift f)

/-- The unit at other offsets. -/
def SourceFile.shift (φ : Shift) (u : SourceFile) : SourceFile :=
  { u with length := φ.map u.source u.length, items := u.items.map (·.shift (φ.map u.source)) }

variable {φ : Shift} {source : String} {f : Nat → Nat}

theorem Expr.shiftAll_eq_map (l : List Expr) : Expr.shiftAll f l = l.map (·.shift f) := by
  induction l with
  | nil => rfl
  | cons e rest ih => rw [Expr.shiftAll, ih, List.map_cons]

theorem Expr.span_shift (e : Expr) : (e.shift f).span = e.span.shift f := by
  cases e <;> rfl

/-! ## The tree that the server sees -/

mutual

theorem Expr.toNode_shift :
    (e : Expr) → (e.shift (φ.map source)).toNode source = (e.toNode source).shift φ
  | .number _ => rfl
  | .string _ => rfl
  | .use _ => rfl
  | .call callee arguments span => by
    rw [shift, toNode, toNode, Expr.toNodes_shift arguments]
    rfl
  | .sum operands span => by
    rw [shift, toNode, toNode, Expr.toNodes_shift operands]
    rfl

theorem Expr.toNodes_shift : (l : List Expr) →
    Expr.toNodes source (Expr.shiftAll (φ.map source) l) = Node.shiftAll φ (Expr.toNodes source l)
  | [] => rfl
  | e :: rest => by
    rw [shiftAll, toNodes, toNodes, Expr.toNode_shift e, Expr.toNodes_shift rest, Node.shiftAll]

end

theorem Expr.toNode_shift? (e : Option Expr) :
    ((e.map (·.shift (φ.map source))).map (·.toNode source)).toList =
      Node.shiftAll φ (e.map (·.toNode source)).toList := by
  cases e with
  | none => rfl
  | some e => exact congrArg ([·]) e.toNode_shift

theorem Statement.toNode_shift (s : Statement) :
    (s.shift (φ.map source)).toNode source = (s.toNode source).shift φ := by
  cases s with
  | expression value span =>
    rw [shift, toNode, toNode, value.toNode_shift]
    rfl
  | «variable» v =>
    rw [shift, toNode, toNode, Variable.shift, Expr.toNode_shift? v.value]
    rfl
  | assignment target value span =>
    rw [shift, toNode, toNode, value.toNode_shift]
    rfl
  | giveBack value span =>
    rw [shift, toNode, toNode, Expr.toNode_shift? value]
    rfl

theorem Item.toNode_shift (i : Item) :
    (i.shift (φ.map source)).toNode source = (i.toNode source).shift φ := by
  cases i with
  | importing path span target => rfl
  | statement s => exact s.toNode_shift
  | function g =>
    have hbody : (g.body.map (·.shift (φ.map source))).map (·.toNode source) =
        (g.body.map (·.toNode source)).map (·.shift φ) := by
      simp [Statement.toNode_shift]
    rw [shift, toNode, toNode, Node.shift, Node.shiftAll_eq_map, List.map_append, ← hbody]
    simp only [Function.shift, List.map_map]
    rfl

/-- The tree of a unit at other offsets. -/
theorem SourceFile.toUnit_shift (u : SourceFile) : (u.shift φ).toUnit = u.toUnit.shift φ := by
  have hitems : (u.items.map (·.shift (φ.map u.source))).map (·.toNode u.source) =
      Node.shiftAll φ (u.items.map (·.toNode u.source)) := by
    simp [Node.shiftAll_eq_map, Item.toNode_shift]
  have hstart : φ.offset u.source 0 = 0 := congrArg Int.ofNat (φ.map_zero u.source)
  simp only [toUnit, CompiledUnit.shift, Node.shift, NodeLabel.shift, SourceLocation.shift,
    shift, Span.within, hitems]
  simp only [Int.natCast_zero, hstart]
  rfl

/-! ## Drafts -/

/-- The error at a token at other offsets. -/
def SyntaxError.shift (f : Nat → Nat) (e : SyntaxError) : SyntaxError :=
  { e with token := e.token.shift f }

theorem SyntaxError.finding_shift (e : SyntaxError) :
    (e.shift (φ.map source)).finding source = (e.finding source).shift φ := rfl

namespace Draft

/-- The draft with all that is declared and found at other offsets. -/
def shift (φ : Shift) (d : Draft) : Draft where
  declarations := d.declarations.mapValues fun _ d => d.shift φ
  findings := d.findings.map (·.shift φ)

theorem nextHandle_shift (d : Draft) : (d.shift φ).nextHandle = d.nextHandle := by
  simp [nextHandle, shift, Table.size, Table.mapValues]

theorem declare_shift (d : Draft) (name : Name) :
    (d.shift φ).declare source (name.shift (φ.map source)) = (d.declare source name).shift φ := by
  simp only [declare, nextHandle_shift]
  simp only [shift, Table.mapValues_insert]
  rfl

theorem report_shift (d : Draft) (g : Finding) :
    (d.shift φ).report (g.shift φ) = (d.report g).shift φ := by
  simp [report, shift]

end Draft

/-! ## Readers -/

/-- The state with the same tokens ahead at other offsets. -/
def ParserState.shift (φ : Shift) (source : String) (s : ParserState) : ParserState where
  ahead := s.ahead.map (·.shift (φ.map source))
  finish := s.finish.shift (φ.map source)
  draft := s.draft.shift φ

namespace Parser

variable {α β γ δ : Type}

/-- A reader of a source does the same at other offsets as another reader; `g` is what becomes of
the value. -/
def Shifts (φ : Shift) (source : String) (p : Parser α) (p' : Parser β) (g : α → β) : Prop :=
  ∀ s, p' (s.shift φ source) =
    match p s with
    | .ok a t => .ok (g a) (t.shift φ source)
    | .error e t => .error (e.shift (φ.map source)) (t.shift φ source)

namespace Shifts

theorem pure {a : α} {b : β} {g : α → β} (h : b = g a) :
    Shifts φ source (Pure.pure a : Parser α) (Pure.pure b) g := fun _ => by rw [h]; rfl

theorem bind {p : Parser α} {p' : Parser β} {g : α → β} {q : α → Parser γ} {q' : β → Parser δ}
    {h : γ → δ} (hp : Shifts φ source p p' g) (hq : ∀ a, Shifts φ source (q a) (q' (g a)) h) :
    Shifts φ source (p >>= q) (p' >>= q') h := by
  intro s
  have hp := hp s
  simp only [Bind.bind, EStateM.bind]
  cases hrun : p s with
  | error e t =>
    rw [hrun] at hp
    rw [hp]
  | ok a t =>
    rw [hrun] at hp
    rw [hp]
    exact hq a t

/-- Going on from the tokens ahead. -/
theorem get_bind {q : ParserState → Parser γ} {q' : ParserState → Parser δ} {h : γ → δ}
    (hq : ∀ s, Shifts φ source (q s) (q' (s.shift φ source)) h) :
    Shifts φ source (get >>= q) (get >>= q') h := fun s => hq s s

/-- Both readers decide alike. -/
theorem ite {c c' : Prop} [Decidable c] [Decidable c'] {p q : Parser α} {p' q' : Parser β} {g : α → β}
    (hc : c' ↔ c) (hp : Shifts φ source p p' g) (hq : Shifts φ source q q' g) :
    Shifts φ source (if c then p else q) (if c' then p' else q') g := by
  by_cases h : c
  · rw [if_pos h, if_pos (hc.2 h)]
    exact hp
  · rw [if_neg h, if_neg fun h' => h (hc.1 h')]
    exact hq

end Shifts

theorem headD_shift (l : List Token) (t : Token) :
    (l.map (·.shift f)).headD (t.shift f) = (l.headD t).shift f := by
  cases l <;> rfl

theorem shifts_current : Shifts φ source current current (Token.shift (φ.map source)) :=
  .get_bind fun s => .pure (headD_shift s.ahead s.finish)

theorem shifts_following : Shifts φ source following following (Token.shift (φ.map source)) :=
  .get_bind fun s => .pure (by
    rw [← headD_shift, List.map_tail]
    rfl)

theorem shifts_advance : Shifts φ source advance advance (Token.shift (φ.map source)) := by
  refine .bind shifts_current fun token => .bind (g := id) (fun s => ?_) fun _ => .pure rfl
  show EStateM.Result.ok () _ = EStateM.Result.ok () _
  simp [ParserState.shift, List.map_tail]

theorem shifts_check (text : String) : Shifts φ source (check text) (check text) id :=
  .bind shifts_current fun _ => .pure rfl

theorem shifts_reject (problem : SyntaxProblem) (g : α → β) :
    Shifts φ source (reject problem : Parser α) (reject problem) g :=
  .bind shifts_current fun _ => fun _ => rfl

theorem shifts_expect (text : String) :
    Shifts φ source (expect text) (expect text) (Token.shift (φ.map source)) :=
  .bind (shifts_check text) fun _ => .ite .rfl shifts_advance (shifts_reject _ _)

theorem shifts_identifier : Shifts φ source identifier identifier (Name.shift (φ.map source)) :=
  .bind shifts_current fun _ =>
    .ite .rfl (.bind shifts_advance fun _ => .pure rfl) (shifts_reject _ _)

theorem shifts_declare (name : Name) :
    Shifts φ source (declare source name) (declare source (name.shift (φ.map source))) id :=
  .get_bind fun s => by
    show Shifts φ source (modify _ >>= fun _ => Pure.pure _) (modify _ >>= fun _ => Pure.pure _) id
    rw [show (s.shift φ source).draft.nextHandle = s.draft.nextHandle from s.draft.nextHandle_shift]
    refine .bind (g := id) (fun t => ?_) fun _ => .pure rfl
    show EStateM.Result.ok () _ = EStateM.Result.ok () _
    exact congrArg (fun d => EStateM.Result.ok () (ParserState.mk _ _ d)) (t.draft.declare_shift name)

/-! ## Expressions -/

theorem spanOf_shift (first : Expr) (rest : List Expr) :
    spanOf (first.shift f) (Expr.shiftAll f rest) = (spanOf first rest).shift f := by
  have hlast : (rest.map (·.shift f)).getLastD (first.shift f) = (rest.getLastD first).shift f := by
    simp only [List.getLastD_eq_getLast?, List.getLast?_map]
    cases rest.getLast? <;> rfl
  rw [spanOf, Expr.shiftAll_eq_map, hlast, Expr.span_shift, Expr.span_shift]
  rfl

theorem shifts_expressions (n : Nat) :
    Shifts φ source (term n) (term n) (Expr.shift (φ.map source)) ∧
      Shifts φ source (expression n) (expression n) (Expr.shift (φ.map source)) ∧
      Shifts φ source (moreOperands n) (moreOperands n) (Expr.shiftAll (φ.map source)) ∧
      Shifts φ source (moreArguments n) (moreArguments n) (Expr.shiftAll (φ.map source)) := by
  -- The four call each other with one step less, so they are read alike together.
  induction n with
  | zero => exact ⟨shifts_reject _ _, shifts_reject _ _, .pure rfl, .pure rfl⟩
  | succ n ih =>
    obtain ⟨hterm, hexpression, hoperands, harguments⟩ := ih
    refine ⟨?_, ?_, ?_, ?_⟩
    · unfold term
      refine .bind shifts_current fun token => ?_
      rw [show (token.shift (φ.map source)).kind = token.kind from rfl]
      split
      · exact .bind shifts_advance fun _ => .pure rfl
      · exact .bind shifts_advance fun _ => .pure rfl
      · refine .ite .rfl (.bind shifts_advance fun _ => .bind (shifts_check _) fun called =>
          .ite .rfl (.bind shifts_advance fun _ => .bind ?_ fun arguments =>
            .bind (shifts_expect _) fun close => .pure rfl) (.pure rfl)) (shifts_reject _ _)
        exact .bind (shifts_check _) fun closed => .ite .rfl (.pure rfl)
          (.bind hexpression fun first => .bind harguments fun _ => .pure rfl)
    · unfold expression
      refine .bind hterm fun first => .bind hoperands fun rest => .ite ?_ (.pure rfl) (.pure ?_)
      · rw [Expr.shiftAll_eq_map, List.isEmpty_map]
      · rw [spanOf_shift]
        rfl
    · unfold moreOperands
      exact .bind (shifts_check _) fun more => .ite .rfl
        (.bind shifts_advance fun _ => .bind hterm fun operand => .bind hoperands fun _ => .pure rfl)
        (.pure rfl)
    · unfold moreArguments
      exact .bind (shifts_check _) fun more => .ite .rfl
        (.bind shifts_advance fun _ => .bind hexpression fun argument =>
          .bind harguments fun _ => .pure rfl) (.pure rfl)

theorem length_ahead_shift (s : ParserState) :
    (s.shift φ source).ahead.length = s.ahead.length := List.length_map _

theorem shifts_anExpression :
    Shifts φ source anExpression anExpression (Expr.shift (φ.map source)) :=
  .get_bind fun s => by
    rw [length_ahead_shift]
    exact (shifts_expressions (2 * s.ahead.length + 2)).2.1

/-! ## Statements -/

theorem shifts_firstValue :
    Shifts φ source firstValue firstValue (Option.map (Expr.shift (φ.map source))) :=
  .bind (shifts_check _) fun _ => .ite .rfl
    (.bind shifts_advance fun _ => .bind shifts_anExpression fun _ => .pure rfl) (.pure rfl)

theorem shifts_typeName :
    Shifts φ source typeName typeName (Option.map (Name.shift (φ.map source))) :=
  .bind (shifts_check _) fun _ => .ite .rfl
    (.bind shifts_advance fun _ => .bind shifts_identifier fun _ => .pure rfl) (.pure rfl)

theorem shifts_variableDeclaration : Shifts φ source (variableDeclaration source)
    (variableDeclaration source) (Statement.shift (φ.map source)) :=
  .bind shifts_advance fun _ => .bind shifts_identifier fun name => .bind shifts_typeName fun _ =>
    .bind shifts_firstValue fun _ => .bind (shifts_expect _) fun _ =>
      .bind (shifts_declare name) fun _ => .pure rfl

theorem shifts_assignment :
    Shifts φ source assignment assignment (Statement.shift (φ.map source)) :=
  .bind shifts_advance fun _ => .bind (shifts_expect _) fun _ => .bind shifts_anExpression fun _ =>
    .bind (shifts_expect _) fun _ => .pure rfl

theorem shifts_giveBack : Shifts φ source giveBack giveBack (Statement.shift (φ.map source)) := by
  refine .bind shifts_advance fun _ => .bind (g := Option.map (Expr.shift (φ.map source))) ?_ fun _ =>
    .bind (shifts_expect _) fun _ => .pure rfl
  exact .bind (shifts_check _) fun closed => .ite .rfl (.pure rfl)
    (.bind shifts_anExpression fun _ => .pure rfl)

theorem shifts_expressionStatement : Shifts φ source expressionStatement expressionStatement
    (Statement.shift (φ.map source)) :=
  .bind shifts_anExpression fun value => .bind (shifts_expect _) fun _ => .pure (by
    rw [value.span_shift]
    rfl)

theorem shifts_assignmentOrExpression : Shifts φ source assignmentOrExpression assignmentOrExpression
    (Statement.shift (φ.map source)) :=
  .bind shifts_current fun _ => .bind shifts_following fun _ =>
    .ite .rfl shifts_assignment shifts_expressionStatement

theorem shifts_bodyStatement : Shifts φ source (bodyStatement source) (bodyStatement source)
    (Statement.shift (φ.map source)) :=
  .bind shifts_current fun _ => .ite .rfl (shifts_reject _ _) <|
    .ite .rfl shifts_variableDeclaration <| .ite .rfl (shifts_reject _ _) <|
      .ite .rfl shifts_giveBack shifts_assignmentOrExpression

/-! ## Going on after a mistake -/

theorem resume_shift (start : Nat) (ahead : List Token) :
    resume start (ahead.map (·.shift f)) = (resume start ahead).map (·.shift f) := by
  have hdrop (l : List Token) : (l.map (·.shift f)).dropWhile (!isStop ·) =
      (l.dropWhile (!isStop ·)).map (·.shift f) := List.dropWhile_map
  have hahead : (if (ahead.map (·.shift f)).length = start then (ahead.map (·.shift f)).tail
      else ahead.map (·.shift f)) =
        (if ahead.length = start then ahead.tail else ahead).map (·.shift f) := by
    rw [List.length_map, ← List.map_tail]
    split <;> rfl
  simp only [resume, hahead, hdrop]
  cases (if ahead.length = start then ahead.tail else ahead).dropWhile (!isStop ·) with
  | nil => rfl
  | cons t rest =>
    show (if t.is ";" = true then _ else _) = List.map _ (if t.is ";" = true then _ else _)
    split <;> rfl

theorem shifts_orSkip {p : Parser α} {p' : Parser β} {g : α → β} (hp : Shifts φ source p p' g) :
    Shifts φ source (orSkip source p) (orSkip source p') (Option.map g) := by
  intro s
  have hp := hp s
  unfold orSkip
  cases hrun : p s with
  | ok a t =>
    rw [hrun] at hp
    rw [hp]
    rfl
  | error e t =>
    rw [hrun] at hp
    rw [hp]
    show EStateM.Result.ok none (ParserState.mk _ _ _) = EStateM.Result.ok none _
    rw [length_ahead_shift, SyntaxError.finding_shift]
    show EStateM.Result.ok none (ParserState.mk (resume _ (t.ahead.map (·.shift (φ.map source)))) _
      ((t.draft.shift φ).report _)) = _
    rw [resume_shift, Draft.report_shift]
    rfl

/-! ## Functions and units -/

theorem shifts_moreParameters (n : Nat) : Shifts φ source (moreParameters source n)
    (moreParameters source n) (List.map (Parameter.shift (φ.map source))) := by
  induction n with
  | zero => exact .pure rfl
  | succ n ih =>
    exact .bind (shifts_check _) fun _ => .ite .rfl
      (.bind shifts_advance fun _ => .bind shifts_identifier fun name =>
        .bind (shifts_declare name) fun _ => .bind ih fun _ => .pure rfl) (.pure rfl)

theorem shifts_parameters : Shifts φ source (parameters source) (parameters source)
    (List.map (Parameter.shift (φ.map source))) := by
  refine .bind (shifts_check _) fun closed => .ite .rfl (.pure rfl) ?_
  refine .bind shifts_identifier fun name => .bind (shifts_declare name) fun _ => .get_bind fun s => ?_
  rw [length_ahead_shift]
  exact .bind (shifts_moreParameters _) fun _ => .pure rfl

theorem shifts_body (n : Nat) : Shifts φ source (body source n) (body source n)
    (List.map (Statement.shift (φ.map source))) := by
  induction n with
  | zero => exact .pure rfl
  | succ n ih =>
    refine .bind (shifts_check _) fun closed => .ite .rfl (.pure rfl) ?_
    refine .bind shifts_current fun token => .ite .rfl (shifts_reject _ _) ?_
    refine .bind (shifts_orSkip shifts_bodyStatement) fun s => .bind ih fun _ => .pure ?_
    cases s <;> simp

theorem shifts_functionDefinition : Shifts φ source (functionDefinition source)
    (functionDefinition source) (Item.shift (φ.map source)) := by
  refine .bind shifts_advance fun _ => .bind shifts_identifier fun name =>
    .bind (shifts_expect _) fun _ => .bind shifts_parameters fun _ => .bind (shifts_expect _) fun _ =>
      .bind (shifts_expect _) fun _ => .get_bind fun s => ?_
  rw [length_ahead_shift]
  exact .bind (shifts_body _) fun _ => .bind shifts_advance fun _ =>
    .bind (shifts_declare name) fun _ => .pure rfl

theorem shifts_importDirective :
    Shifts φ source importDirective importDirective (Item.shift (φ.map source)) :=
  .bind shifts_advance fun _ => .bind shifts_current fun _ => .ite .rfl
    (.bind shifts_advance fun _ => .bind (shifts_expect _) fun _ => .pure rfl) (shifts_reject _ _)

theorem shifts_item :
    Shifts φ source (item source) (item source) (Item.shift (φ.map source)) :=
  .bind shifts_current fun _ => .ite .rfl shifts_importDirective <|
    .ite .rfl (.bind shifts_variableDeclaration fun _ => .pure rfl) <|
      .ite .rfl shifts_functionDefinition <| .ite .rfl (shifts_reject _ _) <|
        .bind shifts_assignmentOrExpression fun _ => .pure rfl

theorem shifts_items (n : Nat) : Shifts φ source (items source n) (items source n)
    (List.map (Item.shift (φ.map source))) := by
  induction n with
  | zero => exact .pure rfl
  | succ n ih =>
    refine .bind shifts_current fun token => .ite .rfl (.pure rfl) ?_
    refine .bind (shifts_orSkip shifts_item) fun i => .bind ih fun _ => .pure ?_
    cases i <;> simp

end Parser

/-- A text holds the tokens of another one at other offsets, and ends where that ends. -/
structure Respells (f : Nat → Nat) (text text' : String) : Prop where
  tokens : tokens text'.toList = (tokens text.toList).map (·.shift f)
  length : text'.toList.length = f text.toList.length

theorem Respells.refl (text : String) : Respells id text text where
  tokens := (List.map_id _).symm
  length := rfl

/-- What is read of a text that holds the same tokens at other offsets. -/
theorem parseFile_shift {text text' : String} (h : Respells (φ.map source) text text') (d : Draft) :
    parseFile source text' (d.shift φ) =
      ((parseFile source text d).1.shift φ, (parseFile source text d).2.shift φ) := by
  have hitems : Parser.Shifts φ source _ _ _ := Parser.shifts_items ((tokens text.toList).length + 1)
  have hread := hitems { ahead := tokens text.toList, finish := endToken text.toList, draft := d }
  have hfinish : (endToken text.toList).shift (φ.map source) = endToken text'.toList := by
    rw [endToken, endToken, h.length]
    rfl
  simp only [ParserState.shift, hfinish, ← h.tokens] at hread
  have hcount : (tokens text'.toList).length = (tokens text.toList).length := by
    rw [h.tokens, List.length_map]
  simp only [parseFile, hcount, hread, h.length]
  cases Parser.items source _ _ <;> rfl

end LanguageServer.Toy
