import LanguageServer.Proofs.Toy.Derivation
import Mathlib.Logic.Function.Iterate

/-!
# How deep reading goes

A call holds expressions, and an expression holds calls, so the readers of both call each other.
Between two calls of the same reader a token is taken.  So where readers call readers deep enough
for the tokens ahead, the innermost of them are not reached: it does not matter what they would do.

## Main definitions

* `ExpressionReaders.outer` — the readers of expressions that call given ones for what is inside.
* `outerParameters` — the reader of parameters that calls a given one for those behind the first.

## Main statements

* `iterate_outer_expression` — whatever the innermost readers do, an expression is read the same.
* `iterate_outerParameters` — so are the parameters of a function.
-/

namespace LanguageServer.Toy

namespace Parser

variable {α β : Type} {source : String} {s : ParserState}

/-! ## The tokens ahead -/

theorem length_rest (hs : s.finish.kind = .finish) (h : s.next.kind ≠ .finish) :
    s.rest.ahead.length + 1 = s.ahead.length := by
  have hpos := List.length_pos_iff.2 (ahead_ne_nil hs h)
  rw [ParserState.rest, List.length_tail]
  omega

theorem bind_congr_at {p p' : Parser α} {q q' : α → Parser β} (hp : p s = p' s)
    (hq : ∀ a t, p' s = .ok a t → q a t = q' a t) : (p >>= q) s = (p' >>= q') s := by
  simp only [Bind.bind, EStateM.bind, hp]
  cases h : p' s with
  | ok a t => exact hq a t h
  | error e t => rfl

/-! ## Lists with a mark before each entry -/

/-- What follows a mark, and the same again. -/
def listed (mark : String) (entry : Parser α) (more : Parser (List α)) : Parser (List α) := do
  if ← check mark then
    let _ ← advance
    let first ← entry
    return first :: (← more)
  else return []

theorem listed_congr {mark : String} {p p' : Parser α} {q q' : Parser (List α)}
    (hp : s.next.is mark = true → p s.rest = p' s.rest)
    (hq : s.next.is mark = true → ∀ a t, p' s.rest = .ok a t → q t = q' t) :
    listed mark p q s = listed mark p' q' s := by
  show (if s.next.is mark then _ else _ : Parser _) s =
    (if s.next.is mark then _ else _ : Parser _) s
  split
  · next hmark =>
    refine bind_congr_at (p := advance) rfl fun _ t ht => ?_
    obtain rfl : s.rest = t := (EStateM.Result.ok.inj ht).2
    exact bind_congr_at (hp hmark) fun a t ha => bind_congr_at (hq hmark a t ha) fun _ _ _ => rfl
  · rfl

/-! ## Expressions -/

/-- A literal, or what is read where a name is next. -/
def literalOr (named : Token → Parser Expr) : Parser Expr := do
  let token ← current
  match token.kind with
  | .number => let _ ← advance; return .number token.span
  | .string => let _ ← advance; return .string token.span
  | _ => if token.isIdentifier then named token else reject .noExpression

theorem literalOr_congr {p q : Token → Parser Expr}
    (h : s.next.isIdentifier = true → p s.next s = q s.next s) : literalOr p s = literalOr q s := by
  refine bind_congr_at (p := current) rfl fun token t ht => ?_
  obtain ⟨rfl, rfl⟩ := EStateM.Result.ok.inj ht
  cases (s.ahead.headD s.finish).kind with
  | number | string => rfl
  | name | punctuation | stray | finish =>
    split
    · next hname => exact h hname
    · rfl

/-- Readers of expressions and of what they are made of. -/
structure ExpressionReaders where
  term : Parser Expr
  expression : Parser Expr
  moreOperands : Parser (List Expr)
  moreArguments : Parser (List Expr)

namespace ExpressionReaders

/-- The arguments of a call, without the parentheses. -/
def arguments (r : ExpressionReaders) : Parser (List Expr) := do
  if ← check ")" then return []
  else
    let first ← r.expression
    return first :: (← r.moreArguments)

/-- What follows a name in a term: arguments in parentheses, or nothing. -/
def callOrUse (r : ExpressionReaders) (token : Token) : Parser Expr := do
  let _ ← advance
  if ← check "(" then
    let _ ← advance
    let arguments ← r.arguments
    let close ← expect ")"
    return .call ⟨token.toName, none⟩ arguments ⟨token.span.start, close.span.stop⟩
  else return .use ⟨token.toName, none⟩

/-- The readers that call given ones for what is inside. -/
def outer (r : ExpressionReaders) : ExpressionReaders where
  term := literalOr r.callOrUse
  expression := do
    let first ← r.term
    let rest ← r.moreOperands
    if rest.isEmpty then return first else return .sum (first :: rest) (spanOf first rest)
  moreOperands := listed "+" r.term r.moreOperands
  moreArguments := listed "," r.expression r.moreArguments

/-- At a state, readers of some depth read as those with some fuel, if both are enough for the
tokens ahead. -/
structure AgreesAt (r : ExpressionReaders) (depth fuel : Nat) (s : ParserState) : Prop where
  term : 2 * s.ahead.length < depth → 2 * s.ahead.length < fuel → r.term s = Parser.term fuel s
  expression : 2 * s.ahead.length + 1 < depth → 2 * s.ahead.length + 1 < fuel →
    r.expression s = Parser.expression fuel s
  moreOperands : 2 * s.ahead.length < depth → 2 * s.ahead.length < fuel →
    r.moreOperands s = Parser.moreOperands fuel s
  moreArguments : 2 * s.ahead.length < depth → 2 * s.ahead.length < fuel →
    r.moreArguments s = Parser.moreArguments fuel s

end ExpressionReaders

theorem Obeys.takes {p : Parser α} {a : α} {t : ParserState} {l : Language Token} (hp : Obeys s p l)
    (hnil : [] ∉ l) (hs : s.finish.kind = .finish) (h : p s = .ok a t) :
    t.finish.kind = .finish ∧ t.ahead.length < s.ahead.length := by
  obtain ⟨hfinish, hshorter⟩ := hp.shorter hs hnil h
  exact ⟨hfinish ▸ hs, hshorter⟩

/-- An expression takes something. -/
theorem shorter_of_expression {n : Nat} {e : Expr} {t : ParserState} (hs : s.finish.kind = .finish)
    (h : expression n s = .ok e t) :
    t.finish.kind = .finish ∧ t.ahead.length < s.ahead.length := by
  have hnil : [] ∉ Grammar.expression := fun hmem => by
    rw [← mul_one Grammar.expression] at hmem
    obtain ⟨token, rest, hnil, -⟩ := Grammar.beginsTerm_of_mem_expression_mul hmem
    cases hnil
  exact (obeys_expressions n s).2.1.takes hnil hs h

/-- A term takes something. -/
theorem shorter_of_term {n : Nat} {e : Expr} {t : ParserState} (hs : s.finish.kind = .finish)
    (h : term n s = .ok e t) : t.finish.kind = .finish ∧ t.ahead.length < s.ahead.length := by
  have hnil : [] ∉ Grammar.term := fun hmem => by
    obtain ⟨token, rest, hnil, -⟩ := Grammar.beginsTerm_of_mem_term hmem
    cases hnil
  exact (obeys_expressions n s).1.takes hnil hs h

section

variable {r : ExpressionReaders} {n m : Nat}

theorem arguments_congr (hs : s.finish.kind = .finish)
    (h : ∀ t : ParserState, t.finish.kind = .finish → r.AgreesAt n m t)
    (hn : 2 * s.ahead.length + 1 < n) (hm : 2 * s.ahead.length + 1 < m) :
    r.arguments s = arguments m s := by
  show (if s.next.is ")" then _ else _ : Parser _) s = (if s.next.is ")" then _ else _ : Parser _) s
  split
  · rfl
  · refine bind_congr_at ((h s hs).expression hn hm) fun first t hfirst => ?_
    obtain ⟨ht, hshorter⟩ := shorter_of_expression hs hfirst
    exact bind_congr_at ((h t ht).moreArguments (by omega) (by omega)) fun _ _ _ => rfl

theorem callOrUse_congr (hs : s.finish.kind = .finish) (hname : s.next.isIdentifier = true)
    (h : ∀ t : ParserState, t.finish.kind = .finish → r.AgreesAt n m t)
    (hn : 2 * s.ahead.length ≤ n) (hm : 2 * s.ahead.length ≤ m) :
    r.callOrUse s.next s = callOrUse m s.next s := by
  have hrest := length_rest hs (Obeys.kind_ne_finish_of_isIdentifier hname)
  show (if s.rest.next.is "(" then _ else _ : Parser _) s.rest =
    (if s.rest.next.is "(" then _ else _ : Parser _) s.rest
  split
  · next hopen =>
    have hrest' := length_rest (s := s.rest) hs (Meets.kind_ne_finish hopen)
    refine bind_congr_at (p := advance) rfl fun _ t ht => ?_
    obtain rfl : s.rest.rest = t := (EStateM.Result.ok.inj ht).2
    exact bind_congr_at (arguments_congr (s := s.rest.rest) hs h (by omega) (by omega))
      fun _ _ _ => rfl
  · rfl

end

/-- Readers that call each other deep enough read as those with enough fuel do. -/
theorem agreesAt_iterate_outer (r : ExpressionReaders) (n : Nat) : ∀ m s, s.finish.kind = .finish →
    (ExpressionReaders.outer^[n] r).AgreesAt n m s := by
  induction n with
  | zero => exact fun m s _ => ⟨by omega, by omega, by omega, by omega⟩
  | succ n ih =>
    intro m s hs
    cases m with
    | zero => exact ⟨by omega, by omega, by omega, by omega⟩
    | succ m =>
      rw [Function.iterate_succ_apply']
      generalize ExpressionReaders.outer^[n] r = inner at ih
      refine ⟨fun hn hm => ?_, fun hn hm => ?_, fun hn hm => ?_, fun hn hm => ?_⟩
      · rw [term_succ]
        exact literalOr_congr fun hname =>
          callOrUse_congr hs hname (ih m) (by omega) (by omega)
      · unfold expression
        refine bind_congr_at ((ih m s hs).term (by omega) (by omega)) fun first t hfirst => ?_
        obtain ⟨ht, hshorter⟩ := shorter_of_term hs hfirst
        exact bind_congr_at ((ih m t ht).moreOperands (by omega) (by omega)) fun _ _ _ => rfl
      · unfold moreOperands
        refine listed_congr (fun hplus => ?_) fun hplus operand t hoperand => ?_
        all_goals have hrest := length_rest hs (Meets.kind_ne_finish hplus)
        · exact (ih m s.rest hs).term (by omega) (by omega)
        · obtain ⟨ht, hshorter⟩ := shorter_of_term (s := s.rest) hs hoperand
          exact (ih m t ht).moreOperands (by omega) (by omega)
      · unfold moreArguments
        refine listed_congr (fun hcomma => ?_) fun hcomma argument t hargument => ?_
        all_goals have hrest := length_rest hs (Meets.kind_ne_finish hcomma)
        · exact (ih m s.rest hs).expression (by omega) (by omega)
        · obtain ⟨ht, hshorter⟩ := shorter_of_expression (s := s.rest) hs hargument
          exact (ih m t ht).moreArguments (by omega) (by omega)

/-- Whatever the innermost readers do, an expression is read the same if the others call each other
deep enough for the tokens ahead. -/
theorem iterate_outer_expression (r : ExpressionReaders) {n : Nat} (hs : s.finish.kind = .finish)
    (hn : 2 * s.ahead.length + 1 < n) :
    (ExpressionReaders.outer^[n] r).expression s = anExpression s :=
  (agreesAt_iterate_outer r n _ s hs).expression hn (Nat.lt_succ_self _)

/-! ## Parameters -/

/-- A parameter; it is declared as soon as it is read. -/
def parameter (source : String) : Parser Parameter := do
  let name ← identifier
  let handle ← declare source name
  return ⟨name, handle⟩

/-- The parameters behind the first one, with a reader for those behind the next. -/
def outerParameters (source : String) (r : Parser (List Parameter)) : Parser (List Parameter) :=
  listed "," (parameter source) r

theorem moreParameters_succ (n : Nat) :
    moreParameters source (n + 1) = outerParameters source (moreParameters source n) := by
  simp only [moreParameters, outerParameters, listed, parameter, bind_assoc, pure_bind]

theorem shorter_of_parameter {p : Parameter} {t : ParserState} (hs : s.finish.kind = .finish)
    (h : parameter source s = .ok p t) :
    t.finish.kind = .finish ∧ t.ahead.length < s.ahead.length := by
  have hobeys : Obeys s (parameter source) (Grammar.name * 1) :=
    Obeys.identifier.bind fun _ _ _ => Obeys.declare.last fun _ _ => .pure
  have hnil : [] ∉ Grammar.name * 1 := by
    rw [mul_one]
    rintro ⟨_, _, hnil⟩
    cases hnil
  exact hobeys.takes hnil hs h

/-- Whatever the innermost reader does, parameters are read the same if the others call each other
deep enough for the tokens ahead. -/
theorem iterate_outerParameters (r : Parser (List Parameter)) (n : Nat) : ∀ m s,
    s.finish.kind = .finish → s.ahead.length < n → s.ahead.length ≤ m →
      ((outerParameters source)^[n] r) s = moreParameters source m s := by
  induction n with
  | zero => exact fun m s _ hn => absurd hn (Nat.not_lt_zero _)
  | succ n ih =>
    intro m s hs hn hm
    rw [Function.iterate_succ_apply']
    cases m with
    | zero =>
      have hnone : s.next.is "," = false := Bool.eq_false_iff.2 fun hcomma => by
        have hrest := length_rest hs (Meets.kind_ne_finish hcomma)
        omega
      show (if s.next.is "," then _ else _ : Parser _) s = _
      rw [hnone]
      rfl
    | succ m =>
      rw [moreParameters_succ]
      refine listed_congr (fun _ => rfl) fun hcomma p t hp => ?_
      have hrest := length_rest hs (Meets.kind_ne_finish hcomma)
      obtain ⟨ht, hshorter⟩ := shorter_of_parameter (s := s.rest) hs hp
      exact ih m t ht (by omega) (by omega)

end Parser

end LanguageServer.Toy
