import LanguageServer.Proofs.Toy.Recognition
import LanguageServer.Proofs.Toy.Unrolling

/-!
# Recovery makes progress

A statement that does not fit is reported and passed over.  Reading goes on behind it, or at the
brace that closes the body around it; either way a token at least has been taken, so the loops over
the statements of a body and over the items of a unit end.

A call of the reader that passes over mistakes reports one mistake at most.  While a function is
read, the calls for the statements of its body report theirs.

## Main definitions

* `ParserState.past` — the state behind some tokens of a text.
* `Parser.Call` — a call of the reader that passes over mistakes, and what comes of it.
* `Parser.Turns` — the calls of a loop up to the token that ends it.
* `Parser.Inner` — the calls that are made while an item is read.
* `Parser.Progresses` — the reading of a text makes progress.

## Main statements

* `Parser.Call.progress` — a call takes something.
* `Parser.exists_turns` — a loop ends.
* `Parser.body_of_turns`, `Parser.items_of_turns` — the loops over bodies and units.
* `Parser.progresses` — the reading of each text makes progress.
-/

namespace LanguageServer.Toy

/-- The state behind the first tokens of a text. -/
def ParserState.past (text : String) (position : Nat) (draft : Draft) : ParserState :=
  { ParserState.before text draft with ahead := (tokens text.toList).drop position }

namespace Parser

/-- What a reader yields, or the mistake that it finds. -/
def outcome {α : Type} (p : Parser α) (s : ParserState) : Except SyntaxError α :=
  match p s with
  | .ok a _ => .ok a
  | .error e _ => .error e

/-- The state that a reader leaves. -/
def left {α : Type} (p : Parser α) (s : ParserState) : ParserState :=
  match p s with
  | .ok _ t => t
  | .error _ t => t

/-- The reader that passes over mistakes is called and returns: with what was read, or with nothing
after a mistake. -/
structure Call {α : Type} (source : String) (p : Parser α) (s : ParserState)
    (r : Except SyntaxError α) (t : ParserState) : Prop where
  yields : outcome p s = r
  returns : orSkip source p s = .ok r.toOption t

/-- What a call reports of its own. -/
def reported {α : Type} (source : String) : Except SyntaxError α → List Finding
  | .ok _ => []
  | .error e => [e.finding source]

/-- A loop calls the reader that passes over mistakes up to a token that ends the loop. -/
inductive Turns {α : Type} (source : String) (p : Parser α) (ends : Token → Bool) :
    ParserState → List (Except SyntaxError α) → ParserState → Prop
  | done {s : ParserState} (hend : ends s.next = true) : Turns source p ends s [] s
  | turn {s t u : ParserState} {r : Except SyntaxError α} {rs : List (Except SyntaxError α)}
    (hgoes : ends s.next = false) (hcall : Call source p s r t)
    (hrest : Turns source p ends t rs u) : Turns source p ends s (r :: rs) u

/-- Whether a token ends the loop over the statements of a body. -/
def endsBody (t : Token) : Bool := t.is "\x7d" || t.kind == .finish

/-- Whether a token ends the loop over the items of a unit. -/
def endsUnit (t : Token) : Bool := t.kind == .finish

/-- A function up to its body. -/
def functionHead (source : String) : Parser (Token × Name × List Parameter) := do
  let start ← advance
  let name ← identifier
  let _ ← expect "("
  let parameters ← parameters source
  let _ ← expect ")"
  let _ ← expect "\x7b"
  return (start, name, parameters)

/-- The calls that are made while an item is read: those for the statements of its body, if it is a
function and is read as far as this. -/
inductive Inner (source : String) (s : ParserState) : List (Except SyntaxError Statement) → Prop
  | body {head : Token × Name × List Parameter} {t u : ParserState}
    {rs : List (Except SyntaxError Statement)} (hfunction : s.next.is "function" = true)
    (hhead : functionHead source s = .ok head t)
    (hbody : Turns source (bodyStatement source) endsBody t rs u) : Inner source s rs
  | none (hnone : ∀ head t, s.next.is "function" = true → functionHead source s ≠ .ok head t) :
    Inner source s []

section

variable {α β : Type} {source : String} {s t u : ParserState} {l : Language Token}

/-! ## Readers that report nothing -/

/-- Reading reports nothing, and the end stays where it is. -/
def Quiet (p : Parser α) : Prop :=
  ∀ s, (left p s).draft.findings = s.draft.findings ∧ (left p s).finish = s.finish

namespace Quiet

theorem pure (a : α) : Quiet (Pure.pure a) := fun _ => ⟨rfl, rfl⟩

theorem bind {p : Parser α} {q : α → Parser β} (hp : Quiet p) (hq : ∀ a, Quiet (q a)) :
    Quiet (p >>= q) := by
  intro s
  have hleft := hp s
  simp only [left, Bind.bind, EStateM.bind] at hleft ⊢
  cases h : p s with
  | error e t => rwa [h] at hleft
  | ok a t =>
    rw [h] at hleft
    have hnext := hq a t
    simp only [left] at hnext
    exact ⟨hnext.1.trans hleft.1, hnext.2.trans hleft.2⟩

theorem get : Quiet (MonadState.get : Parser ParserState) := fun _ => ⟨rfl, rfl⟩

theorem current : Quiet Parser.current := fun _ => ⟨rfl, rfl⟩

theorem following : Quiet Parser.following := fun _ => ⟨rfl, rfl⟩

theorem check (mark : String) : Quiet (Parser.check mark) := fun _ => ⟨rfl, rfl⟩

theorem reject (problem : SyntaxProblem) : Quiet (Parser.reject problem : Parser α) :=
  fun _ => ⟨rfl, rfl⟩

theorem advance : Quiet Parser.advance := fun _ => ⟨rfl, rfl⟩

theorem declare (name : Name) : Quiet (Parser.declare source name) := fun _ => ⟨rfl, rfl⟩

theorem expect (mark : String) : Quiet (Parser.expect mark) := by
  refine (check mark).bind fun found => ?_
  split
  · exact advance
  · exact reject _

theorem identifier : Quiet Parser.identifier := by
  refine current.bind fun token => ?_
  split
  · exact advance.bind fun _ => .pure _
  · exact reject _

end Quiet

theorem quiet_listed {mark : String} {entry : Parser α} {more : Parser (List α)}
    (hentry : Quiet entry) (hmore : Quiet more) : Quiet (listed mark entry more) := by
  refine (Quiet.check mark).bind fun found => ?_
  split
  · exact Quiet.advance.bind fun _ => hentry.bind fun _ => hmore.bind fun _ => .pure _
  · exact .pure _

theorem quiet_callOrUse {n : Nat} (hexpression : Quiet (expression n))
    (hmore : Quiet (moreArguments n)) (token : Token) : Quiet (callOrUse n token) := by
  have harguments : Quiet (arguments n) := by
    refine (Quiet.check ")").bind fun closed => ?_
    split
    · exact .pure _
    · exact hexpression.bind fun _ => hmore.bind fun _ => .pure _
  refine Quiet.advance.bind fun _ => (Quiet.check "(").bind fun called => ?_
  split
  · exact Quiet.advance.bind fun _ => harguments.bind fun _ =>
      (Quiet.expect ")").bind fun _ => .pure _
  · exact .pure _

theorem quiet_expressions (n : Nat) : Quiet (term n) ∧ Quiet (expression n) ∧
    Quiet (moreOperands n) ∧ Quiet (moreArguments n) := by
  induction n with
  | zero => exact ⟨.reject _, .reject _, .pure _, .pure _⟩
  | succ n ih =>
    obtain ⟨hterm, hexpression, hoperands, harguments⟩ := ih
    refine ⟨?_, ?_, ?_, ?_⟩
    · rw [term_succ]
      refine Quiet.current.bind fun token => ?_
      split
      · exact Quiet.advance.bind fun _ => .pure _
      · exact Quiet.advance.bind fun _ => .pure _
      split
      · exact quiet_callOrUse hexpression harguments token
      · exact .reject _
    · unfold expression
      refine hterm.bind fun first => hoperands.bind fun rest => ?_
      split <;> exact .pure _
    · unfold moreOperands
      exact quiet_listed hterm hoperands
    · unfold moreArguments
      exact quiet_listed hexpression harguments

theorem quiet_anExpression : Quiet anExpression :=
  Quiet.get.bind fun _ => (quiet_expressions _).2.1

theorem quiet_variableDeclaration : Quiet (variableDeclaration source) := by
  have htype : Quiet typeName := by
    refine (Quiet.check ":").bind fun typed => ?_
    split
    · exact Quiet.advance.bind fun _ => Quiet.identifier.bind fun _ => .pure _
    · exact .pure _
  have hvalue : Quiet firstValue := by
    refine (Quiet.check "=").bind fun valued => ?_
    split
    · exact Quiet.advance.bind fun _ => quiet_anExpression.bind fun _ => .pure _
    · exact .pure _
  exact Quiet.advance.bind fun _ => Quiet.identifier.bind fun name => htype.bind fun _ =>
    hvalue.bind fun _ => (Quiet.expect ";").bind fun _ => (Quiet.declare name).bind fun _ => .pure _

theorem quiet_giveBack : Quiet giveBack := by
  refine Quiet.advance.bind fun _ => .bind ((Quiet.check ";").bind fun closed => ?_) fun _ =>
    (Quiet.expect ";").bind fun _ => .pure _
  split
  · exact .pure _
  · exact quiet_anExpression.bind fun _ => .pure _

theorem quiet_assignmentOrExpression : Quiet assignmentOrExpression := by
  refine Quiet.current.bind fun _ => Quiet.following.bind fun _ => ?_
  split
  · exact Quiet.advance.bind fun _ => (Quiet.expect "=").bind fun _ =>
      quiet_anExpression.bind fun _ => (Quiet.expect ";").bind fun _ => .pure _
  · exact quiet_anExpression.bind fun _ => (Quiet.expect ";").bind fun _ => .pure _

theorem quiet_bodyStatement (source : String) : Quiet (bodyStatement source) := by
  refine Quiet.current.bind fun token => ?_
  split
  · exact .reject _
  split
  · exact quiet_variableDeclaration
  split
  · exact .reject _
  split
  · exact quiet_giveBack
  · exact quiet_assignmentOrExpression

theorem quiet_importDirective : Quiet importDirective := by
  refine Quiet.advance.bind fun _ => Quiet.current.bind fun path => ?_
  split
  · exact Quiet.advance.bind fun _ => (Quiet.expect ";").bind fun _ => .pure _
  · exact .reject _

theorem quiet_functionHead (source : String) : Quiet (functionHead source) := by
  have hmore : ∀ n, Quiet (moreParameters source n) := by
    intro n
    induction n with
    | zero => exact .pure _
    | succ n ih =>
      rw [moreParameters_succ]
      refine quiet_listed ?_ ih
      exact Quiet.identifier.bind fun name => (Quiet.declare name).bind fun _ => .pure _
  have hparameters : Quiet (parameters source) := by
    refine (Quiet.check ")").bind fun closed => ?_
    split
    · exact .pure _
    · exact Quiet.identifier.bind fun name => (Quiet.declare name).bind fun _ =>
        Quiet.get.bind fun _ => (hmore _).bind fun _ => .pure _
  exact Quiet.advance.bind fun _ => Quiet.identifier.bind fun _ => (Quiet.expect "(").bind fun _ =>
    hparameters.bind fun _ => (Quiet.expect ")").bind fun _ => (Quiet.expect "\x7b").bind fun _ =>
      .pure _

/-! ## A call -/

theorem exists_call (source : String) (p : Parser α) (s : ParserState) :
    ∃ r t, Call source p s r t := by
  cases h : p s with
  | ok a t => exact ⟨.ok a, t, by rw [outcome, h], by rw [orSkip, h]; rfl⟩
  | error e t => exact ⟨.error e, _, by rw [outcome, h], by rw [orSkip, h]; rfl⟩

variable {p : Parser α} {r : Except SyntaxError α} {rs : List (Except SyntaxError α)}
  {ends : Token → Bool}

/-- A call reports a mistake of its own at most, behind what is reported while it is made. -/
theorem Call.findings (h : Call source p s r t) :
    t.draft.findings = (left p s).draft.findings ++ reported source r := by
  obtain ⟨hyields, hreturns⟩ := h
  unfold outcome at hyields
  unfold orSkip at hreturns
  unfold left
  cases hp : p s with
  | ok a u =>
    rw [hp] at hyields hreturns
    cases hyields
    cases hreturns
    exact (List.append_nil _).symm
  | error e u =>
    rw [hp] at hyields hreturns
    cases hyields
    cases hreturns
    rfl

/-- A call before the end takes something. -/
theorem Call.progress (h : Call source p s r t) (hp : Obeys s p l) (hnil : [] ∉ l)
    (hs : s.finish.kind = .finish) (hnext : s.next.kind ≠ .finish) :
    t.finish = s.finish ∧ t.ahead <:+ s.ahead ∧ t.ahead.length < s.ahead.length := by
  have hstep : Obeys s (orSkip source p) l := obeys_orSkip hp (ahead_ne_nil hs hnext)
  have hderives := hstep hs
  rw [h.returns] at hderives
  exact ⟨hderives.1, hderives.2.suffix, hderives.2.shorter hnil⟩

/-! ## Loops -/

/-- A loop of calls each of which takes something ends. -/
theorem exists_turns (source : String) (ends : Token → Bool) (hp : ∀ s, Obeys s p l) (hnil : [] ∉ l)
    (hends : ∀ t : Token, t.kind = .finish → ends t = true) (s : ParserState)
    (hs : s.finish.kind = .finish) : ∃ rs t, Turns source p ends s rs t ∧
      t.finish = s.finish ∧ t.ahead <:+ s.ahead ∧ ends t.next = true := by
  induction hlength : s.ahead.length using Nat.strong_induction_on generalizing s with
  | _ n ih =>
    cases hend : ends s.next with
    | true => exact ⟨[], s, .done hend, rfl, List.suffix_rfl, hend⟩
    | false =>
      obtain ⟨r, t, hcall⟩ := exists_call source p s
      have hnext : s.next.kind ≠ .finish := fun hfinish => by
        rw [hends _ hfinish] at hend
        cases hend
      obtain ⟨hfinish, hsuffix, hshorter⟩ := hcall.progress (hp s) hnil hs hnext
      obtain ⟨rs, u, hturns, hlast, hbehind, hstop⟩ :=
        ih _ (hlength ▸ hshorter) t (hfinish ▸ hs) rfl
      exact ⟨r :: rs, u, .turn hend hcall hturns, hlast.trans hfinish, hbehind.trans hsuffix, hstop⟩

/-- A loop reports what its calls report, if these report nothing but mistakes of their own. -/
theorem Turns.findings (h : Turns source p ends s rs t) (hp : Quiet p) :
    t.draft.findings = s.draft.findings ++ rs.flatMap (reported source) := by
  induction h with
  | done => exact (List.append_nil _).symm
  | turn hgoes hcall hrest ih =>
    rw [ih, hcall.findings, (hp _).1, List.flatMap_cons, List.append_assoc]

theorem filterMap_toOption_cons (r : Except SyntaxError α) (rs : List (Except SyntaxError α)) :
    (r :: rs).filterMap Except.toOption = r.toOption.toList ++ rs.filterMap Except.toOption := by
  cases r <;> rfl

/-- What a loop with fuel yields, once its calls are known: what was read in each of its turns, and
then what comes of the token that ends it. -/
theorem loop_of_turns {loop : Nat → Parser (List α)} {close : Parser (List α)}
    (hp : ∀ s, Obeys s p l) (hnil : [] ∉ l)
    (hends : ∀ t : Token, t.kind = .finish → ends t = true)
    (hdone : ∀ n s, ends s.next = true → loop (n + 1) s = close s)
    (hturn : ∀ n s, ends s.next = false → loop (n + 1) s = (do
      let a ← orSkip source p
      return a.toList ++ (← loop n) : Parser (List α)) s)
    (h : Turns source p ends s rs t) : s.finish.kind = .finish → ∀ n, s.ahead.length < n →
      loop n s = (do return rs.filterMap Except.toOption ++ (← close) : Parser (List α)) t := by
  induction h with
  | @done s hend =>
    intro hs n hn
    obtain ⟨n, rfl⟩ := Nat.exists_eq_succ_of_ne_zero (Nat.ne_zero_of_lt hn)
    simp only [hdone n s hend, List.filterMap_nil, List.nil_append, bind_pure]
  | @turn s t u r rs hgoes hcall hrest ih =>
    intro hs n hn
    obtain ⟨n, rfl⟩ := Nat.exists_eq_succ_of_ne_zero (Nat.ne_zero_of_lt hn)
    have hnext : s.next.kind ≠ .finish := fun hfinish => by
      rw [hends _ hfinish] at hgoes
      cases hgoes
    obtain ⟨hfinish, -, hshorter⟩ := hcall.progress (hp s) hnil hs hnext
    have hmore := ih (hfinish ▸ hs) n (by omega)
    rw [hturn n s hgoes]
    simp only [Bind.bind, EStateM.bind, hcall.returns, hmore, filterMap_toOption_cons]
    cases close u with
    | ok more v =>
      show EStateM.Result.ok (_ ++ (_ ++ _)) _ = EStateM.Result.ok (_ ++ _ ++ _) _
      rw [List.append_assoc]
    | error e v => rfl

theorem body_succ (n : Nat) : body source (n + 1) s = (if s.next.is "\x7d" then pure [] else do
    if (← current).kind == .finish then reject (.missing "\x7d")
    else
      let statement ← orSkip source (bodyStatement source)
      return statement.toList ++ (← body source n) : Parser (List Statement)) s := rfl

theorem items_succ (n : Nat) : items source (n + 1) s = (if endsUnit s.next then pure [] else do
    let item ← orSkip source (item source)
    return item.toList ++ (← items source n) : Parser (List Item)) s := rfl

theorem endsBody_of_finish {t : Token} (h : t.kind = .finish) : endsBody t = true := by
  simp [endsBody, h]

/-- What comes of the token at which the loop over the statements of a body ends. -/
def closeBody : Parser (List Statement) := do
  if ← check "\x7d" then return [] else reject (.missing "\x7d")

theorem closeBody_apply : closeBody s =
    if s.next.is "\x7d" then .ok [] s else .error ⟨.missing "\x7d", s.next⟩ s := by
  show (if s.next.is "\x7d" then pure [] else reject (.missing "\x7d") : Parser (List Statement)) s =
    _
  split <;> rfl

/-- The loop over the statements of a body yields those that fit.  It fails where the end comes
before the closing brace. -/
theorem body_of_turns {rs : List (Except SyntaxError Statement)}
    (h : Turns source (bodyStatement source) endsBody s rs t) (hs : s.finish.kind = .finish)
    {n : Nat} (hn : s.ahead.length < n) : body source n s =
      if t.next.is "\x7d" then .ok (rs.filterMap Except.toOption) t
      else .error ⟨.missing "\x7d", t.next⟩ t := by
  have hdone : ∀ n s, endsBody s.next = true → body source (n + 1) s = closeBody s := by
    intro n s hend
    rw [body_succ, closeBody_apply]
    split
    · rfl
    · next hopen =>
      have hfinish := (Bool.or_eq_true_iff.1 hend).resolve_left hopen
      show (if s.next.kind == .finish then _ else _ : Parser (List Statement)) s = _
      split
      · rfl
      · next hnext => exact absurd hfinish hnext
  have hturn : ∀ n s, endsBody s.next = false → body source (n + 1) s = (do
      let a ← orSkip source (bodyStatement source)
      return a.toList ++ (← body source n) : Parser (List Statement)) s := by
    intro n s hgoes
    obtain ⟨hopen, hnext⟩ := Bool.or_eq_false_iff.1 hgoes
    rw [body_succ, hopen]
    show (if s.next.kind == .finish then _ else _ : Parser (List Statement)) s = _
    split
    · next hfinish => simp_all
    · rfl
  rw [loop_of_turns (fun _ => obeys_bodyStatement) Grammar.nil_notMem_bodyStatement
    (fun _ => endsBody_of_finish) hdone hturn h hs n hn]
  simp only [Bind.bind, EStateM.bind, closeBody_apply]
  by_cases hclosed : t.next.is "\x7d" = true
  · rw [if_pos hclosed, if_pos hclosed]
    show EStateM.Result.ok (_ ++ []) t = _
    rw [List.append_nil]
  · rw [if_neg hclosed, if_neg hclosed]

/-- The loop over the items of a unit yields those that fit. -/
theorem items_of_turns {rs : List (Except SyntaxError Item)}
    (h : Turns source (item source) endsUnit s rs t) (hs : s.finish.kind = .finish) {n : Nat}
    (hn : s.ahead.length < n) : items source n s = .ok (rs.filterMap Except.toOption) t := by
  have hdone : ∀ n s, endsUnit s.next = true →
      items source (n + 1) s = (pure [] : Parser (List Item)) s := fun n s hend => by
    rw [items_succ, hend]
    rfl
  have hturn : ∀ n s, endsUnit s.next = false → items source (n + 1) s = (do
      let a ← orSkip source (item source)
      return a.toList ++ (← items source n) : Parser (List Item)) s := fun n s hgoes => by
    rw [items_succ, hgoes]
    rfl
  rw [loop_of_turns (fun _ => obeys_item) Grammar.nil_notMem_top (fun t ht => beq_iff_eq.2 ht) hdone
    hturn h hs n hn, pure_bind, List.append_nil]
  rfl

/-! ## Inside an item -/

theorem functionDefinition_eq : functionDefinition source = (do
    let head ← functionHead source
    let body ← body source ((← get).ahead.length + 1)
    let close ← advance
    let handle ← declare source head.2.1
    return .function
      { name := head.2.1, parameters := head.2.2, body
        span := ⟨head.1.span.start, close.span.stop⟩, handle } : Parser Item) := by
  simp only [functionDefinition, functionHead, bind_assoc, pure_bind]

/-- The next token tells what sort of item is read. -/
theorem left_item : left (item source) s = left (if s.next.is "import" then importDirective
    else if s.next.is "var" then return .statement (← variableDeclaration source)
    else if s.next.is "function" then functionDefinition source
    else if s.next.is "return" then reject .returnOutside
    else return .statement (← assignmentOrExpression)) s := rfl

/-- An item that is no function reports nothing while it is read. -/
theorem findings_item_of_no_function (h : s.next.is "function" = false) :
    (left (item source) s).draft.findings = s.draft.findings := by
  rw [left_item]
  split
  · exact (quiet_importDirective s).1
  split
  · exact (quiet_variableDeclaration.bind (fun _ => .pure _) s).1
  split
  · next hfunction => simp [hfunction] at h
  split
  · exact (Quiet.reject _ s).1
  · exact (quiet_assignmentOrExpression.bind (fun _ => .pure _) s).1

theorem left_bind_of_ok {p : Parser α} {q : α → Parser β} {a : α} (h : p s = .ok a t) :
    left (p >>= q) s = left (q a) t := by
  simp only [left, Bind.bind, EStateM.bind, h]

theorem left_bind_of_error {p : Parser α} {q : α → Parser β} {e : SyntaxError}
    (h : p s = .error e t) : left (p >>= q) s = t := by
  simp only [left, Bind.bind, EStateM.bind, h]

/-- Behind the head of a function nothing is reported but in its body. -/
theorem findings_functionDefinition {head : Token × Name × List Parameter}
    {rs : List (Except SyntaxError Statement)} (hs : s.finish.kind = .finish)
    (hhead : functionHead source s = .ok head t)
    (hbody : Turns source (bodyStatement source) endsBody t rs u) :
    (left (functionDefinition source) s).draft.findings =
      s.draft.findings ++ rs.flatMap (reported source) := by
  have hquiet := quiet_functionHead source s
  rw [left, hhead] at hquiet
  have hfinish : t.finish.kind = .finish := hquiet.2 ▸ hs
  have hresult := body_of_turns hbody hfinish (Nat.lt_succ_self _)
  have hget : (get : Parser ParserState) t = .ok t t := rfl
  rw [functionDefinition_eq, left_bind_of_ok hhead, left_bind_of_ok hget, ← hquiet.1,
    ← hbody.findings (quiet_bodyStatement source)]
  by_cases hclosed : u.next.is "\x7d" = true
  · rw [if_pos hclosed] at hresult
    rw [left_bind_of_ok hresult]
    exact (Quiet.advance.bind (fun _ => (Quiet.declare head.2.1).bind fun _ => .pure _) u).1
  · rw [if_neg hclosed] at hresult
    rw [left_bind_of_error hresult]

/-- While an item is read, the calls for the statements of its body report their mistakes. -/
theorem exists_inner (source : String) (s : ParserState) (hs : s.finish.kind = .finish) :
    ∃ rs, Inner source s rs ∧
      (left (item source) s).draft.findings = s.draft.findings ++ rs.flatMap (reported source) := by
  cases hfunction : s.next.is "function" with
  | false =>
    refine ⟨[], .none fun _ _ h => ?_, ?_⟩
    · rw [hfunction] at h
      cases h
    · rw [findings_item_of_no_function hfunction]
      exact (List.append_nil _).symm
  | true =>
    have hitem : left (item source) s = left (functionDefinition source) s := by
      rw [left_item, Token.is_eq hfunction, Token.is_eq hfunction, hfunction]
      rfl
    rw [hitem]
    cases hhead : functionHead source s with
    | error e t =>
      refine ⟨[], .none fun _ _ _ h => ?_, ?_⟩
      · rw [hhead] at h
        cases h
      · have hquiet := (quiet_functionHead source s).1
        rw [left, hhead] at hquiet
        rw [functionDefinition_eq, left_bind_of_error hhead, hquiet]
        exact (List.append_nil _).symm
    | ok head t =>
      have hfinish := (quiet_functionHead source s).2
      rw [left, hhead] at hfinish
      obtain ⟨rs, u, hbody, -⟩ := exists_turns source endsBody (fun _ => obeys_bodyStatement)
        Grammar.nil_notMem_bodyStatement (fun _ => endsBody_of_finish) t (hfinish ▸ hs)
      exact ⟨rs, .body hfunction hhead hbody, findings_functionDefinition hs hhead hbody⟩

end

/-! ## The whole text -/

/-- Recovery makes progress while a text is read. -/
structure Progresses (source text : String) : Prop where
  /-- The next token is the end just if all others are taken. -/
  ends : ∀ position draft, (ParserState.past text position draft).next.kind = .finish ↔
    (tokens text.toList).length ≤ position
  /-- A call in the body of a function returns further on, with a statement or after it reported one
  mistake. -/
  inside : ∀ position < (tokens text.toList).length, ∀ draft, ∃ r position' draft',
    Call source (bodyStatement source) (.past text position draft) r (.past text position' draft') ∧
    position < position' ∧ position' ≤ (tokens text.toList).length ∧
    draft'.findings = draft.findings ++ reported source r
  /-- So does a call in a unit.  What is reported besides is what the calls for the statements of a
  body reported. -/
  atTop : ∀ position < (tokens text.toList).length, ∀ draft, ∃ r inner position' draft',
    Call source (item source) (.past text position draft) r (.past text position' draft') ∧
    position < position' ∧ position' ≤ (tokens text.toList).length ∧
    Inner source (.past text position draft) inner ∧
    draft'.findings = draft.findings ++ inner.flatMap (reported source) ++ reported source r
  /-- The loop over the statements of a body ends, at a closing brace or at the end, and this is what
  is read of a body, however much fuel there is. -/
  bodies : ∀ position ≤ (tokens text.toList).length, ∀ draft, ∃ rs position' draft',
    Turns source (bodyStatement source) endsBody (.past text position draft) rs
      (.past text position' draft') ∧
    position ≤ position' ∧ position' ≤ (tokens text.toList).length ∧
    ∀ fuel, (tokens text.toList).length < position + fuel →
      body source fuel (.past text position draft) =
        let last := ParserState.past text position' draft'
        if last.next.is "\x7d" then .ok (rs.filterMap Except.toOption) last
        else .error ⟨.missing "\x7d", last.next⟩ last
  /-- The loop over the items of a unit ends behind all tokens, and this is what is read of a text. -/
  units : ∀ draft, ∃ rs draft',
    Turns source (item source) endsUnit (.past text 0 draft) rs
      (.past text (tokens text.toList).length draft') ∧
    parseFile source text draft =
      (⟨source, text.toList.length, rs.filterMap Except.toOption⟩, draft')
  /-- The readers of expressions do not call each other without end: those that stand too deep for
  the tokens ahead are not reached, whatever they would do. -/
  expressions : ∀ (innermost : ExpressionReaders) position draft depth,
    2 * ((tokens text.toList).length - position) + 1 < depth →
    (ExpressionReaders.outer^[depth] innermost).expression (.past text position draft) =
      anExpression (.past text position draft)
  /-- Nor does the reader of parameters. -/
  parameters : ∀ (innermost : Parser (List Parameter)) position draft depth,
    (tokens text.toList).length - position < depth →
    ((outerParameters source)^[depth] innermost) (.past text position draft) =
      moreParameters source ((tokens text.toList).length - position) (.past text position draft)

section

variable {source text : String} {t : ParserState} {position : Nat} {draft : Draft}

theorem length_past : (ParserState.past text position draft).ahead.length =
    (tokens text.toList).length - position := List.length_drop

theorem kind_next_past : (ParserState.past text position draft).next.kind = .finish ↔
    (tokens text.toList).length ≤ position := by
  rw [← List.drop_eq_nil_iff]
  unfold ParserState.next ParserState.past
  cases hahead : (tokens text.toList).drop position with
  | nil => exact iff_of_true rfl rfl
  | cons token rest =>
    have hmem : token ∈ tokens text.toList := List.mem_of_mem_drop (hahead ▸ List.mem_cons_self)
    exact iff_of_false (isPieceOf_of_mem_tokens hmem).kind (List.cons_ne_nil _ _)

/-- What is left of a text stands behind some of its tokens. -/
theorem exists_eq_past (hahead : t.ahead <:+ (ParserState.past text position draft).ahead)
    (hfinish : t.finish = endToken text.toList) (hle : position ≤ (tokens text.toList).length) :
    ∃ position', t = .past text position' t.draft ∧ position ≤ position' ∧
      position' ≤ (tokens text.toList).length ∧
      t.ahead.length = (tokens text.toList).length - position' := by
  have hlength := hahead.length_le
  rw [length_past] at hlength
  have hsuffix := List.suffix_iff_eq_drop.1 (hahead.trans (List.drop_suffix _ _))
  refine ⟨(tokens text.toList).length - t.ahead.length, ?_, by omega, Nat.sub_le _ _, by omega⟩
  obtain ⟨ahead, finish, draft⟩ := t
  obtain rfl : finish = _ := hfinish
  exact congrArg (ParserState.mk · _ _) hsuffix

/-- A call before the end returns further on. -/
theorem exists_call_past {α : Type} {p : Parser α} {l : Language Token} (source : String)
    (draft : Draft) (hp : ∀ s, Obeys s p l) (hnil : [] ∉ l)
    (hlt : position < (tokens text.toList).length) : ∃ r position' draft',
      Call source p (.past text position draft) r (.past text position' draft') ∧
      position < position' ∧ position' ≤ (tokens text.toList).length := by
  obtain ⟨r, t, hcall⟩ := exists_call source p (.past text position draft)
  have hnext : (ParserState.past text position draft).next.kind ≠ .finish := fun h =>
    absurd (kind_next_past.1 h) (Nat.not_le_of_lt hlt)
  obtain ⟨hfinish, hahead, hshorter⟩ := hcall.progress (hp _) hnil rfl hnext
  obtain ⟨position', ht, -, hle', hlength⟩ := exists_eq_past hahead hfinish hlt.le
  rw [length_past] at hshorter
  exact ⟨r, position', t.draft, ht ▸ hcall, by omega, hle'⟩

/-- A loop ends, at a token further on or at the end. -/
theorem exists_turns_past {α : Type} {p : Parser α} {l : Language Token} (source : String)
    (ends : Token → Bool) (draft : Draft) (hp : ∀ s, Obeys s p l) (hnil : [] ∉ l)
    (hends : ∀ t : Token, t.kind = .finish → ends t = true)
    (hle : position ≤ (tokens text.toList).length) : ∃ rs position' draft',
      Turns source p ends (.past text position draft) rs (.past text position' draft') ∧
      position ≤ position' ∧ position' ≤ (tokens text.toList).length ∧
      ends (ParserState.past text position' draft').next = true := by
  obtain ⟨rs, t, hturns, hfinish, hahead, hend⟩ :=
    exists_turns source ends hp hnil hends (.past text position draft) rfl
  obtain ⟨position', ht, hge, hle', -⟩ := exists_eq_past hahead hfinish hle
  exact ⟨rs, position', t.draft, ht ▸ hturns, hge, hle', ht ▸ hend⟩

end

/-- The reading of each text makes progress where it recovers from mistakes. -/
theorem progresses (source text : String) : Progresses source text where
  ends _ _ := kind_next_past
  inside position hlt draft := by
    obtain ⟨r, position', draft', hcall, hgt, hle⟩ := exists_call_past source draft
      (p := bodyStatement source) (fun _ => obeys_bodyStatement) Grammar.nil_notMem_bodyStatement hlt
    have hquiet := (quiet_bodyStatement source (.past text position draft)).1
    exact ⟨r, position', draft', hcall, hgt, hle, hquiet ▸ hcall.findings⟩
  atTop position hlt draft := by
    obtain ⟨r, position', draft', hcall, hgt, hle⟩ := exists_call_past source draft
      (p := item source) (fun _ => obeys_item) Grammar.nil_notMem_top hlt
    obtain ⟨inner, hinner, hfindings⟩ := exists_inner source (.past text position draft) rfl
    exact ⟨r, inner, position', draft', hcall, hgt, hle, hinner, hfindings ▸ hcall.findings⟩
  bodies position hle draft := by
    obtain ⟨rs, position', draft', hturns, hge, hle', -⟩ := exists_turns_past source endsBody draft
      (p := bodyStatement source) (fun _ => obeys_bodyStatement) Grammar.nil_notMem_bodyStatement
      (fun _ => endsBody_of_finish) hle
    refine ⟨rs, position', draft', hturns, hge, hle', fun fuel hfuel => body_of_turns hturns rfl ?_⟩
    rw [length_past]
    omega
  units draft := by
    obtain ⟨rs, position', draft', hturns, -, hle, hend⟩ := exists_turns_past source endsUnit draft
      (p := item source) (fun _ => obeys_item) Grammar.nil_notMem_top
      (fun _ h => beq_iff_eq.2 h) (Nat.zero_le _)
    obtain rfl : position' = (tokens text.toList).length :=
      le_antisymm hle (kind_next_past.1 (beq_iff_eq.1 hend))
    exact ⟨rs, draft', hturns, parseFile_of_items (items_of_turns hturns rfl (Nat.lt_succ_self _))⟩
  expressions innermost position draft depth hdepth :=
    iterate_outer_expression innermost rfl (by rwa [length_past])
  parameters innermost position draft depth hdepth :=
    iterate_outerParameters innermost depth _ _ rfl (by rwa [length_past]) length_past.le

end Parser

end LanguageServer.Toy
