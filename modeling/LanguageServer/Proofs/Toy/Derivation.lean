import LanguageServer.Proofs.Toy.Grammar
import LanguageServer.Proofs.Toy.Layout

/-!
# What is read without a mistake

A reader that reports nothing has taken a phrase of the grammar.  Where a mistake is passed over
there is a finding for it, and findings stay.

## Main definitions

* `Draft.mistakes` — the number of syntax errors that were reported.
* `ParserState.Derives` — how the state after reading comes from the state before.
* `Parser.Obeys` — a reader takes a word of a language, or there are mistakes.

## Main statements

* `Parser.obeys_items` — what is read without a mistake is a list of items.
-/

namespace LanguageServer.Toy

open scoped Computability

/-- The number of syntax errors that were reported. -/
def Draft.mistakes (d : Draft) : Nat :=
  d.findings.countP (·.code == some Code.syntaxError.number)

theorem Draft.mistakes_report (d : Draft) (source : String) (e : SyntaxError) :
    (d.report (e.finding source)).mistakes = d.mistakes + 1 := by
  simp [report, mistakes, SyntaxError.finding]

/-- Reading either takes a word of a language and finds no mistake, or it takes something and finds
one. -/
inductive ParserState.Derives (l : Language Token) (s t : ParserState) : Prop
  | word {w : List Token} (hw : w ∈ l) (hahead : s.ahead = w ++ t.ahead)
      (hmistakes : t.draft.mistakes = s.draft.mistakes)
  | mistaken (hahead : t.ahead <:+ s.ahead) (hshorter : t.ahead.length < s.ahead.length)
      (hmistakes : s.draft.mistakes < t.draft.mistakes)

namespace ParserState.Derives

variable {s t u : ParserState} {l m : Language Token}

theorem suffix (h : s.Derives l t) : t.ahead <:+ s.ahead := by
  cases h with
  | word _ hahead _ => exact hahead ▸ List.suffix_append _ _
  | mistaken hahead _ _ => exact hahead

theorem mistakes_le (h : s.Derives l t) : s.draft.mistakes ≤ t.draft.mistakes := by
  cases h with
  | word _ _ hmistakes => exact hmistakes.ge
  | mistaken _ _ hmistakes => exact hmistakes.le

theorem trans (h : s.Derives l t) (h' : t.Derives m u) : s.Derives (l * m) u := by
  have hsuffix := h'.suffix.trans h.suffix
  have hshort := h.suffix.length_le
  have hshort' := h'.suffix.length_le
  have hle := h.mistakes_le
  have hle' := h'.mistakes_le
  cases h with
  | mistaken _ hshorter hmistakes => exact .mistaken hsuffix (by omega) (by omega)
  | word hw hahead hmistakes =>
    cases h' with
    | mistaken _ hshorter' hmistakes' => exact .mistaken hsuffix (by omega) (by omega)
    | word hw' hahead' hmistakes' =>
      refine .word (Language.append_mem_mul hw hw') ?_ (hmistakes'.trans hmistakes)
      rw [hahead, hahead', List.append_assoc]

theorem mono (h : s.Derives l t) (hle : l ≤ m) : s.Derives m t := by
  cases h with
  | word hw hahead hmistakes => exact .word (hle hw) hahead hmistakes
  | mistaken hahead hshorter hmistakes => exact .mistaken hahead hshorter hmistakes

/-- Reading goes on if nothing is no word. -/
theorem shorter (h : s.Derives l t) (hnil : [] ∉ l) : t.ahead.length < s.ahead.length := by
  cases h with
  | mistaken _ hshorter _ => exact hshorter
  | @word w hw hahead _ =>
    cases w with
    | nil => exact absurd hw hnil
    | cons token w =>
      rw [hahead, List.length_append, List.length_cons]
      omega

end ParserState.Derives

namespace Parser

variable {α β : Type} {source : String} {s : ParserState} {l m : Language Token}

/-- A reader takes a word of a language, or there are mistakes. -/
def Obeys (s : ParserState) (p : Parser α) (l : Language Token) : Prop :=
  s.finish.kind = .finish →
    match p s with
    | .ok _ t => t.finish = s.finish ∧ s.Derives l t
    | .error _ t => t.finish = s.finish ∧ t.ahead <:+ s.ahead ∧ s.draft.mistakes ≤ t.draft.mistakes

namespace Obeys

theorem pure {a : α} : Obeys s (Pure.pure a) 1 :=
  fun _ => ⟨rfl, .word (Language.nil_mem_one) rfl rfl⟩

theorem bind {p : Parser α} {q : α → Parser β} (hp : Obeys s p l)
    (hq : ∀ a t, p s = .ok a t → Obeys t (q a) m) : Obeys s (p >>= q) (l * m) := by
  intro hs
  have hp := hp hs
  simp only [Bind.bind, EStateM.bind]
  cases hresult : p s with
  | error e t =>
    rw [hresult] at hp
    exact hp
  | ok a t =>
    rw [hresult] at hp
    have hnext := hq a t hresult (hp.1 ▸ hs)
    simp only
    cases hresult' : q a t with
    | ok b u =>
      rw [hresult'] at hnext
      exact ⟨hnext.1.trans hp.1, hp.2.trans hnext.2⟩
    | error e u =>
      rw [hresult'] at hnext
      exact ⟨hnext.1.trans hp.1, hnext.2.1.trans hp.2.suffix,
        Nat.le_trans hp.2.mistakes_le hnext.2.2⟩

theorem mono {p : Parser α} (hp : Obeys s p l) (hle : l ≤ m) : Obeys s p m := by
  intro hs
  have hp := hp hs
  split at hp
  · exact ⟨hp.1, hp.2.mono hle⟩
  · exact hp

/-- The last reader that takes tokens. -/
theorem last {p : Parser α} {q : α → Parser β} (hp : Obeys s p l) (hq : ∀ a t, Obeys t (q a) 1) :
    Obeys s (p >>= q) l := by
  simpa only [mul_one] using hp.bind fun a t _ => hq a t

/-! Looking at the tokens ahead takes none. -/

theorem get_bind {q : ParserState → Parser β} (hq : Obeys s (q s) l) : Obeys s (get >>= q) l := hq

theorem current_bind {q : Token → Parser β} (hq : Obeys s (q s.next) l) :
    Obeys s (current >>= q) l := hq

theorem following_bind {q : Token → Parser β} (hq : ∀ token, Obeys s (q token) l) :
    Obeys s (following >>= q) l := hq _

theorem check_bind {text : String} {q : Bool → Parser β} (hq : Obeys s (q (s.next.is text)) l) :
    Obeys s (check text >>= q) l := hq

theorem reject (problem : SyntaxProblem) : Obeys s (Parser.reject problem : Parser α) l :=
  fun _ => ⟨rfl, List.suffix_rfl, le_rfl⟩

theorem declare {name : Name} : Obeys s (Parser.declare source name) 1 :=
  fun _ => ⟨rfl, .word (Language.nil_mem_one) rfl rfl⟩

/-! Taking tokens. -/

/-- What is taken is the next token, unless that is the end. -/
theorem advance (test : Token → Bool) (htest : test s.next = true) (hkind : s.next.kind ≠ .finish) :
    Obeys s Parser.advance (Grammar.one test) := by
  intro hs
  refine ⟨rfl, .word (Grammar.singleton_mem_one htest) ?_ rfl⟩
  cases hahead : s.ahead with
  | nil =>
    refine absurd ?_ hkind
    rw [ParserState.next, hahead]
    exact hs
  | cons token rest => simp [ParserState.next, hahead]

theorem advance_mark {text : String} (h : s.next.is text = true) :
    Obeys s Parser.advance (Grammar.mark text) :=
  advance (·.is text) h (Meets.kind_ne_finish h)

theorem expect (text : String) : Obeys s (Parser.expect text) (Grammar.mark text) := by
  refine .check_bind ?_
  split
  · next h => exact advance_mark h
  · exact .reject _

theorem kind_ne_finish_of_isIdentifier {t : Token} (h : t.isIdentifier = true) :
    t.kind ≠ .finish := by
  intro hfinish
  simp [Token.isIdentifier, hfinish] at h

theorem advance_name (h : s.next.isIdentifier = true) : Obeys s Parser.advance Grammar.name :=
  advance Token.isIdentifier h (kind_ne_finish_of_isIdentifier h)

theorem identifier : Obeys s Parser.identifier Grammar.name := by
  refine .current_bind ?_
  split
  · next h => exact (advance_name h).last fun _ _ => .pure
  · exact .reject _

end Obeys

/-! ## Expressions -/

/-- What stands behind a mark goes on with more of its kind. -/
theorem mark_mul_mul_kstar_le (text : String) (l : Language Token) :
    Grammar.mark text * (l * (Grammar.mark text * l)∗) ≤ (Grammar.mark text * l)∗ := by
  rw [← mul_assoc]
  exact mul_kstar_le_kstar

/-- The arguments of a call, without the parentheses. -/
def arguments (n : Nat) : Parser (List Expr) := do
  if ← check ")" then return []
  else
    let first ← expression n
    return first :: (← moreArguments n)

/-- What follows a name in a term: arguments in parentheses, or nothing. -/
def callOrUse (n : Nat) (token : Token) : Parser Expr := do
  let _ ← advance
  if ← check "(" then
    let _ ← advance
    let arguments ← arguments n
    let close ← expect ")"
    return .call ⟨token.toName, none⟩ arguments ⟨token.span.start, close.span.stop⟩
  else return .use ⟨token.toName, none⟩

/-- A term, with what is read behind a name under a name of its own. -/
theorem term_succ (n : Nat) : term (n + 1) = (do
    let token ← current
    match token.kind with
    | .number => let _ ← advance; return .number token.span
    | .string => let _ ← advance; return .string token.span
    | _ => if token.isIdentifier then callOrUse n token else reject .noExpression) := by
  rw [term]
  rfl

theorem obeys_arguments {n : Nat} (hexpression : ∀ s, Obeys s (expression n) Grammar.expression)
    (hmore : ∀ s, Obeys s (moreArguments n) (Grammar.mark "," * Grammar.expression)∗) :
    Obeys s (arguments n)
      (Grammar.optional (Grammar.expression * (Grammar.mark "," * Grammar.expression)∗)) := by
  refine .check_bind ?_
  split
  · exact .mono .pure Grammar.one_le_optional
  · exact ((hexpression s).bind fun first t _ => (hmore t).last fun _ _ => .pure).mono
      Grammar.le_optional

theorem obeys_callOrUse {n : Nat} (hexpression : ∀ s, Obeys s (expression n) Grammar.expression)
    (hmore : ∀ s, Obeys s (moreArguments n) (Grammar.mark "," * Grammar.expression)∗)
    {token : Token} (hname : s.next.isIdentifier = true) :
    Obeys s (callOrUse n token) Grammar.term := by
  have hcallOrUse : Obeys s (callOrUse n token)
      (Grammar.name * Grammar.optional (Grammar.mark "("
        * Grammar.optional (Grammar.expression * (Grammar.mark "," * Grammar.expression)∗)
        * Grammar.mark ")")) := by
    refine (Obeys.advance_name hname).bind fun _ t _ => .check_bind ?_
    split
    · next hopen =>
      refine Obeys.mono ?_ Grammar.le_optional
      rw [mul_assoc]
      exact (Obeys.advance_mark hopen).bind fun _ u _ =>
        (obeys_arguments hexpression hmore).bind fun arguments v _ =>
          (Obeys.expect ")").last fun _ _ => .pure
    · exact .mono .pure Grammar.one_le_optional
  refine hcallOrUse.mono ?_
  rw [Grammar.term_eq, Grammar.optional, mul_add, mul_one, add_assoc, ← mul_assoc, ← mul_assoc]
  exact le_add_self

theorem obeys_expressions (n : Nat) : ∀ s : ParserState,
    Obeys s (term n) Grammar.term ∧ Obeys s (expression n) Grammar.expression ∧
      Obeys s (moreOperands n) (Grammar.mark "+" * Grammar.term)∗ ∧
      Obeys s (moreArguments n) (Grammar.mark "," * Grammar.expression)∗ := by
  induction n with
  | zero =>
    exact fun s => ⟨.reject _, .reject _, .mono .pure one_le_kstar, .mono .pure one_le_kstar⟩
  | succ n ih =>
    intro s
    refine ⟨?_, ?_, ?_, ?_⟩
    · rw [term_succ]
      refine .current_bind ?_
      split
      · next hkind =>
        rw [Grammar.term_eq]
        refine ((Obeys.advance (·.kind == .number) (by simp [hkind]) (by simp [hkind])).last
          fun _ _ => .pure).mono ?_
        exact fun _ h => .inl (.inl (.inl h))
      · next hkind =>
        rw [Grammar.term_eq]
        refine ((Obeys.advance (·.kind == .string) (by simp [hkind]) (by simp [hkind])).last
          fun _ _ => .pure).mono ?_
        exact fun _ h => .inl (.inl (.inr h))
      · split
        · next hname => exact obeys_callOrUse (fun s => (ih s).2.1) (fun s => (ih s).2.2.2) hname
        · exact .reject _
    · unfold expression
      refine (ih s).1.bind fun first t _ => (ih t).2.2.1.last fun rest u => ?_
      split <;> exact .pure
    · unfold moreOperands
      refine .check_bind ?_
      split
      · next hplus =>
        refine ((Obeys.advance_mark hplus).bind fun _ t _ => (ih t).1.bind fun operand u _ =>
          (ih u).2.2.1.last fun _ _ => .pure).mono ?_
        exact mark_mul_mul_kstar_le _ _
      · exact .mono .pure one_le_kstar
    · unfold moreArguments
      refine .check_bind ?_
      split
      · next hcomma =>
        refine ((Obeys.advance_mark hcomma).bind fun _ t _ => (ih t).2.1.bind fun argument u _ =>
          (ih u).2.2.2.last fun _ _ => .pure).mono ?_
        exact mark_mul_mul_kstar_le _ _
      · exact .mono .pure one_le_kstar

theorem obeys_anExpression : Obeys s anExpression Grammar.expression :=
  .get_bind (obeys_expressions _ s).2.1

/-! ## Statements -/

theorem obeys_firstValue :
    Obeys s firstValue (Grammar.optional (Grammar.mark "=" * Grammar.expression)) := by
  refine .check_bind ?_
  split
  · next hequals =>
    exact ((Obeys.advance_mark hequals).bind fun _ t _ =>
      obeys_anExpression.last fun _ _ => .pure).mono Grammar.le_optional
  · exact .mono .pure Grammar.one_le_optional

theorem obeys_typeName :
    Obeys s typeName (Grammar.optional (Grammar.mark ":" * Grammar.name)) := by
  refine .check_bind ?_
  split
  · next hcolon =>
    exact ((Obeys.advance_mark hcolon).bind fun _ t _ =>
      Obeys.identifier.last fun _ _ => .pure).mono Grammar.le_optional
  · exact .mono .pure Grammar.one_le_optional

theorem obeys_variableDeclaration (h : s.next.is "var" = true) :
    Obeys s (variableDeclaration source) Grammar.variableDeclaration := by
  simp only [Grammar.variableDeclaration, mul_assoc]
  exact (Obeys.advance_mark h).bind fun _ t _ => Obeys.identifier.bind fun name u _ =>
    obeys_typeName.bind fun typeName v _ => obeys_firstValue.bind fun value w _ =>
      (Obeys.expect ";").last fun _ _ => Obeys.declare.last fun _ _ => .pure

theorem obeys_assignment (h : s.next.isIdentifier = true) :
    Obeys s assignment Grammar.assignment := by
  simp only [Grammar.assignment, mul_assoc]
  exact (Obeys.advance_name h).bind fun _ t _ => (Obeys.expect "=").bind fun _ u _ =>
    obeys_anExpression.bind fun value v _ => (Obeys.expect ";").last fun _ _ => .pure

theorem obeys_giveBack (h : s.next.is "return" = true) :
    Obeys s giveBack (Grammar.mark "return" * Grammar.optional Grammar.expression
      * Grammar.mark ";") := by
  rw [mul_assoc]
  refine (Obeys.advance_mark h).bind fun _ _ _ => .bind (.check_bind ?_) fun _ _ _ =>
    (Obeys.expect ";").last fun _ _ => .pure
  split
  · exact .mono .pure Grammar.one_le_optional
  · exact (obeys_anExpression.last fun _ _ => .pure).mono Grammar.le_optional

theorem obeys_expressionStatement :
    Obeys s expressionStatement (Grammar.expression * Grammar.mark ";") :=
  obeys_anExpression.bind fun _ _ _ => (Obeys.expect ";").last fun _ _ => .pure

theorem obeys_assignmentOrExpression :
    Obeys s assignmentOrExpression
      (Grammar.assignment + Grammar.expression * Grammar.mark ";") := by
  refine .current_bind (.following_bind fun token => ?_)
  split
  · next h => exact (obeys_assignment (Bool.and_eq_true_iff.1 h).1).mono fun _ h => .inl h
  · exact obeys_expressionStatement.mono fun _ h => .inr h

theorem obeys_bodyStatement : Obeys s (bodyStatement source) Grammar.bodyStatement := by
  rw [Grammar.bodyStatement, add_assoc]
  refine .current_bind ?_
  split
  · exact .reject _
  split
  · next hvar => exact (obeys_variableDeclaration hvar).mono fun _ h => .inl (.inl h)
  split
  · exact .reject _
  split
  · next hreturn => exact (obeys_giveBack hreturn).mono fun _ h => .inl (.inr h)
  · exact obeys_assignmentOrExpression.mono fun _ h => .inr h

/-! ## Going on after a mistake -/

/-- Reading goes on behind the place where it began. -/
theorem length_resume_lt {ahead taken : List Token} (htaken : taken <:+ ahead)
    (hne : ahead ≠ []) : (resume ahead.length taken).length < ahead.length := by
  have hpos : 0 < ahead.length := List.length_pos_iff.2 hne
  have hle := htaken.length_le
  -- Where nothing was taken, one token is passed over in any case.
  by_cases hnone : taken.length = ahead.length
  · have hrest : resume ahead.length taken = resume (ahead.length + 1) taken.tail := by
      have hlt : taken.tail.length ≠ ahead.length + 1 := by
        rw [List.length_tail]
        omega
      simp only [resume, hnone, if_true, hlt, if_false]
    have hshort := (resume_suffix (ahead.length + 1) taken.tail).length_le
    rw [List.length_tail] at hshort
    rw [hrest]
    omega
  · have hshort := (resume_suffix ahead.length taken).length_le
    omega

/-- After a mistake there is a finding more, and reading goes on. -/
theorem obeys_orSkip {p : Parser α} (hp : Obeys s p l) (hne : s.ahead ≠ []) :
    Obeys s (orSkip source p) l := by
  intro hs
  have hp := hp hs
  unfold orSkip
  cases hresult : p s with
  | ok a t =>
    rw [hresult] at hp
    exact hp
  | error e t =>
    rw [hresult] at hp
    refine ⟨hp.1, .mistaken ((resume_suffix _ _).trans hp.2.1) (length_resume_lt hp.2.1 hne) ?_⟩
    show _ < (t.draft.report (e.finding source)).mistakes
    rw [Draft.mistakes_report]
    omega

/-! ## Functions and units -/

theorem obeys_moreParameters (n : Nat) : ∀ s : ParserState,
    Obeys s (moreParameters source n) (Grammar.mark "," * Grammar.name)∗ := by
  induction n with
  | zero => exact fun s => .mono .pure one_le_kstar
  | succ n ih =>
    intro s
    refine .check_bind ?_
    split
    · next hcomma =>
      refine ((Obeys.advance_mark hcomma).bind fun _ t _ => Obeys.identifier.bind fun name u _ =>
        ?_).mono (mark_mul_mul_kstar_le _ _)
      rw [← one_mul (KStar.kstar _)]
      exact Obeys.declare.bind fun handle v _ => (ih v).last fun _ _ => .pure
    · exact .mono .pure one_le_kstar

theorem obeys_parameters : Obeys s (parameters source)
    (Grammar.optional (Grammar.name * (Grammar.mark "," * Grammar.name)∗)) := by
  refine .check_bind ?_
  split
  · exact .mono .pure Grammar.one_le_optional
  · refine (Obeys.identifier.bind fun name t _ => ?_).mono Grammar.le_optional
    rw [← one_mul (KStar.kstar _)]
    exact Obeys.declare.bind fun handle u _ => .get_bind
      ((obeys_moreParameters _ u).last fun _ _ => .pure)

/-- Where the next token is no end, there are tokens ahead. -/
theorem ahead_ne_nil (hs : s.finish.kind = .finish) (h : s.next.kind ≠ .finish) : s.ahead ≠ [] := by
  intro hnil
  simp [ParserState.next, hnil, hs] at h

theorem orSkip_eq_ok (source : String) (p : Parser α) (s : ParserState) :
    ∃ o t, orSkip source p s = .ok o t := by
  unfold orSkip
  cases p s with
  | ok a t => exact ⟨_, _, rfl⟩
  | error e t => exact ⟨_, _, rfl⟩

/-- Each step takes something. -/
theorem Obeys.shorter {p : Parser α} {a : α} {t : ParserState} (hp : Obeys s p l)
    (hs : s.finish.kind = .finish) (hnil : [] ∉ l) (h : p s = .ok a t) :
    t.finish = s.finish ∧ t.ahead.length < s.ahead.length := by
  have hp := hp hs
  rw [h] at hp
  exact ⟨hp.1, hp.2.shorter hnil⟩

theorem obeys_body (n : Nat) : ∀ s : ParserState, s.ahead.length < n →
    Obeys s (body source n) Grammar.bodyStatement∗ := by
  induction n with
  | zero => exact fun s _ => .mono .pure one_le_kstar
  | succ n ih =>
    intro s hfuel hs
    refine Obeys.check_bind ?_ hs
    split
    · exact .mono .pure one_le_kstar
    · refine .current_bind ?_
      split
      · exact .reject _
      · next hfinish =>
        -- A statement takes a token at least, so the fuel lasts for those behind it.
        have hstep : Obeys s (orSkip source (bodyStatement source)) Grammar.bodyStatement :=
          obeys_orSkip obeys_bodyStatement (ahead_ne_nil hs (by simpa using hfinish))
        refine (hstep.bind fun o t hresult => ?_).mono mul_kstar_le_kstar
        have hshorter := (hstep.shorter hs Grammar.nil_notMem_bodyStatement hresult).2
        exact (ih t (by omega)).last fun _ _ => .pure

theorem bind_eq_ok {p : Parser α} {q : α → Parser β} {b : β} {u : ParserState}
    (h : (p >>= q) s = .ok b u) : ∃ a t, p s = .ok a t ∧ q a t = .ok b u := by
  simp only [Bind.bind, EStateM.bind] at h
  cases hresult : p s with
  | ok a t =>
    rw [hresult] at h
    exact ⟨a, t, rfl, h⟩
  | error e t =>
    rw [hresult] at h
    cases h

/-- The reading of a body ends at a closing brace. -/
theorem closes_body (n : Nat) : ∀ s : ParserState, s.finish.kind = .finish → s.ahead.length < n →
    ∀ b t, body source n s = .ok b t → t.next.is "\x7d" = true := by
  induction n with
  | zero => exact fun s _ hfuel => absurd hfuel (Nat.not_lt_zero _)
  | succ n ih =>
    intro s hs hfuel b t hresult
    obtain ⟨closed, _, hclosed, hresult⟩ := bind_eq_ok hresult
    cases hclosed
    split at hresult
    · next hclosed =>
      cases hresult
      exact hclosed
    · obtain ⟨_, _, hcurrent, hresult⟩ := bind_eq_ok hresult
      cases hcurrent
      split at hresult
      · cases hresult
      · next hfinish =>
        obtain ⟨o, u, hskip, hresult⟩ := bind_eq_ok hresult
        obtain ⟨more, v, hmore, hresult⟩ := bind_eq_ok hresult
        cases hresult
        have hne := ahead_ne_nil hs fun h => hfinish (beq_iff_eq.2 h)
        obtain ⟨hend, hshorter⟩ := (obeys_orSkip obeys_bodyStatement hne).shorter hs
          Grammar.nil_notMem_bodyStatement hskip
        exact ih u (hend ▸ hs) (by omega) more t hmore

theorem obeys_functionDefinition (h : s.next.is "function" = true) :
    Obeys s (functionDefinition source) (Grammar.mark "function" * Grammar.name * Grammar.mark "("
      * Grammar.optional (Grammar.name * (Grammar.mark "," * Grammar.name)∗) * Grammar.mark ")"
      * Grammar.mark "\x7b" * Grammar.bodyStatement∗ * Grammar.mark "\x7d") := by
  simp only [mul_assoc]
  refine (Obeys.advance_mark h).bind fun _ t _ => Obeys.identifier.bind fun name u _ =>
    (Obeys.expect "(").bind fun _ v _ => obeys_parameters.bind fun parameters w _ =>
      (Obeys.expect ")").bind fun _ x _ => (Obeys.expect "\x7b").bind fun _ y _ => .get_bind ?_
  intro hy
  -- The last token is taken without a look at it; that it is a brace is known from how the body ended.
  refine ((obeys_body _ y (Nat.lt_succ_self _)).bind fun body z hbody => ?_) hy
  have hclosed := closes_body _ y hy (Nat.lt_succ_self _) body z hbody
  exact (Obeys.advance_mark hclosed).last fun _ _ => Obeys.declare.last fun _ _ => .pure

theorem obeys_importDirective (h : s.next.is "import" = true) :
    Obeys s importDirective (Grammar.mark "import" * Grammar.string * Grammar.mark ";") := by
  simp only [mul_assoc]
  refine (Obeys.advance_mark h).bind fun _ t _ => .current_bind ?_
  split
  · next hstring =>
    have hkind : t.next.kind ≠ .finish := by simp [beq_iff_eq.1 hstring]
    exact (Obeys.advance (·.kind == .string) hstring hkind).bind fun _ u _ =>
      (Obeys.expect ";").last fun _ _ => .pure
  · exact .reject _

theorem obeys_item : Obeys s (item source) Grammar.top := by
  rw [Grammar.top, add_assoc]
  refine .current_bind ?_
  split
  · next himport => exact (obeys_importDirective himport).mono fun _ h => .inl (.inl (.inl h))
  split
  · next hvar =>
    exact ((obeys_variableDeclaration hvar).last fun _ _ => .pure).mono
      fun _ h => .inl (.inl (.inr h))
  split
  · next hfunction => exact (obeys_functionDefinition hfunction).mono fun _ h => .inl (.inr h)
  split
  · exact .reject _
  · exact (obeys_assignmentOrExpression.last fun _ _ => .pure).mono fun _ h => .inr h

/-- What is read without a mistake is a list of items. -/
theorem obeys_items (n : Nat) : ∀ s : ParserState, s.ahead.length < n →
    Obeys s (items source n) Grammar.top∗ := by
  induction n with
  | zero => exact fun s _ => .mono .pure one_le_kstar
  | succ n ih =>
    intro s hfuel hs
    refine Obeys.current_bind ?_ hs
    split
    · exact .mono .pure one_le_kstar
    · next hfinish =>
      have hstep : Obeys s (orSkip source (item source)) Grammar.top :=
        obeys_orSkip obeys_item (ahead_ne_nil hs (by simpa using hfinish))
      refine (hstep.bind fun o t hresult => ?_).mono mul_kstar_le_kstar
      have hshorter := (hstep.shorter hs Grammar.nil_notMem_top hresult).2
      exact (ih t (by omega)).last fun _ _ => .pure

end Parser

end LanguageServer.Toy
