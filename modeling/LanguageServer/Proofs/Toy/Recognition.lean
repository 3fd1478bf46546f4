import LanguageServer.Proofs.Toy.Acceptance

/-!
# What is grammatical is read: units

The reader of a unit finds no mistake in a text just if its tokens are a word of the grammar.  Then
each item of the word is read in its place, and nothing else is.

## Main definitions

* `IsOver` — a node reaches from the first token of a word to its last.

## Main statements

* `Parser.accepts_items` — a list of items is read, each of them in its place.
* `Parser.reaches_end` — the reading of a unit reaches the end.
* `mistakes_parseFile_iff` — a text is read without a mistake just if it is grammatical.
-/

namespace LanguageServer.Toy

open scoped Computability

/-- A node reaches from the first token of a word to its last. -/
def IsOver (source : String) (w : List Token) (n : Node) : Prop :=
  ∃ first last, w.head? = some first ∧ w.getLast? = some last ∧
    n.location = ⟨source, first.span.start, last.span.stop⟩

namespace Parser

variable {α : Type} {source : String} {s : ParserState} {finish : Token} {w rest : List Token}
  {P : α → Prop}

/-! ## Statements -/

theorem accepts_firstValue
    (hw : w ∈ Grammar.optional (Grammar.mark "=" * Grammar.expression))
    (hs : s.Faces w rest finish) (hclose : (rest.headD finish).is ";" = true) :
    Accepts s firstValue w (fun _ => True) := by
  refine .check_bind ?_
  rcases Grammar.mem_optional.1 hw with rfl | hw
  · rw [hs.next, List.nil_append, Token.is_eq hclose]
    exact .pure trivial
  · obtain ⟨equals, v, hequals, hv, rfl⟩ := Grammar.mem_one_mul.1 hw
    rw [hs.next_cons, hequals]
    refine (Accepts.advance hs.front).bind fun _ t ht _ => ?_
    exact (accepts_anExpression hv (hs.behind ht) hclose).last fun _ _ _ _ => .pure trivial

theorem accepts_typeName (hw : w ∈ Grammar.optional (Grammar.mark ":" * Grammar.name))
    (hs : s.Faces w rest finish) (hnoColon : (rest.headD finish).is ":" = false) :
    Accepts s typeName w (fun _ => True) := by
  refine .check_bind ?_
  rcases Grammar.mem_optional.1 hw with rfl | hw
  · rw [hs.next, List.nil_append, hnoColon]
    exact .pure trivial
  · obtain ⟨colon, _, hcolon, ⟨name, hname, rfl⟩, rfl⟩ := Grammar.mem_one_mul.1 hw
    rw [hs.next_cons, hcolon]
    refine (Accepts.advance hs.front).bind fun _ t ht _ => ?_
    exact (Accepts.identifier (hs.behind ht) hname).last fun _ _ _ _ => .pure trivial

/-- What stands between a name and its semicolon begins with a mark of its own. -/
theorem is_colon_headD {semicolon : Token}
    (hw : w ∈ Grammar.optional (Grammar.mark "=" * Grammar.expression))
    (hclose : semicolon.is ";" = true) :
    ((w ++ [semicolon] ++ rest).headD finish).is ":" = false := by
  rcases Grammar.mem_optional.1 hw with rfl | hw
  · exact Token.is_eq hclose _
  · obtain ⟨equals, v, hequals, -, rfl⟩ := Grammar.mem_one_mul.1 hw
    exact Token.is_eq hequals _

theorem accepts_variableDeclaration (hw : w ∈ Grammar.variableDeclaration)
    (hs : s.Faces w rest finish) :
    Accepts s (variableDeclaration source) w (fun st => IsOver source w (st.toNode source)) := by
  simp only [Grammar.variableDeclaration, mul_assoc] at hw
  obtain ⟨start, _, hstart, hnamed, rfl⟩ := Grammar.mem_one_mul.1 hw
  obtain ⟨name, _, hname, hbehind, rfl⟩ := Grammar.mem_one_mul.1 hnamed
  obtain ⟨typed, htyped, _, hvalued, rfl⟩ := Language.mem_mul.1 hbehind
  obtain ⟨value, close, hvalue, hclose, rfl⟩ := Grammar.mem_mul_one.1 hvalued
  refine (Accepts.advance hs.front).bind fun first t ht hfirst => ?_
  have ht := hs.behind ht
  refine (Accepts.identifier ht.front hname).bind fun _ u hu _ => ?_
  have hu := ht.behind hu
  refine (accepts_typeName htyped hu.front (is_colon_headD hvalue hclose)).bind fun _ v hv _ => ?_
  have hv := hu.behind hv
  refine (accepts_firstValue hvalue hv.front hclose).bind fun _ x hx _ => ?_
  refine (Accepts.expect (hv.behind hx) hclose).last fun last y _ hlast => ?_
  refine (Accepts.declare source _).last fun _ _ _ _ => .pure ?_
  exact ⟨start, close, rfl, by simp only [← List.append_assoc, List.getLast?_concat],
    by rw [hfirst, hlast]; rfl⟩

theorem accepts_assignment (hw : w ∈ Grammar.assignment) (hs : s.Faces w rest finish) :
    Accepts s assignment w (fun st => IsOver source w (st.toNode source)) := by
  simp only [Grammar.assignment, mul_assoc] at hw
  obtain ⟨name, _, hname, hbehind, rfl⟩ := Grammar.mem_one_mul.1 hw
  obtain ⟨equals, _, hequals, hvalued, rfl⟩ := Grammar.mem_one_mul.1 hbehind
  obtain ⟨value, close, hvalue, hclose, rfl⟩ := Grammar.mem_mul_one.1 hvalued
  refine (Accepts.advance hs.front).bind fun first t ht hfirst => ?_
  have ht := hs.behind ht
  refine (Accepts.expect ht.front hequals).bind fun _ u hu _ => ?_
  have hu := ht.behind hu
  refine (accepts_anExpression hvalue hu.front hclose).bind fun _ v hv _ => ?_
  refine (Accepts.expect (hu.behind hv) hclose).last fun last _ _ hlast => .pure ?_
  exact ⟨name, close, rfl, by simp only [← List.append_assoc, List.getLast?_concat],
    by rw [hfirst, hlast]; rfl⟩

theorem accepts_giveBack
    (hw : w ∈ Grammar.mark "return" * Grammar.optional Grammar.expression * Grammar.mark ";")
    (hs : s.Faces w rest finish) :
    Accepts s giveBack w (fun st => IsOver source w (st.toNode source)) := by
  rw [mul_assoc] at hw
  obtain ⟨start, _, hstart, hbehind, rfl⟩ := Grammar.mem_one_mul.1 hw
  obtain ⟨value, close, hvalue, hclose, rfl⟩ := Grammar.mem_mul_one.1 hbehind
  refine (Accepts.advance hs.front).bind fun first t ht hfirst => ?_
  have ht := hs.behind ht
  refine Accepts.bind (P := fun _ => True) (.check_bind ?_) fun _ u hu _ => ?_
  · rcases Grammar.mem_optional.1 hvalue with rfl | hvalue
    · rw [ht.next, List.nil_append, List.singleton_append, List.headD_cons, hclose]
      exact .pure trivial
    · have hbegins : Grammar.BeginsTerm value := by
        rw [← mul_one Grammar.expression] at hvalue
        exact Grammar.beginsTerm_of_mem_expression_mul hvalue
      rw [ht.front.next_is hbegins _ (by decide)]
      exact (accepts_anExpression hvalue ht.front hclose).last fun _ _ _ _ => .pure trivial
  · refine (Accepts.expect (ht.behind hu) hclose).last fun last _ _ hlast => .pure ?_
    exact ⟨start, close, rfl, by simp only [← List.append_assoc, List.getLast?_concat],
      by rw [hfirst, hlast]; rfl⟩

theorem accepts_expressionStatement (hw : w ∈ Grammar.expression * Grammar.mark ";")
    (hs : s.Faces w rest finish) :
    Accepts s expressionStatement w (fun st => IsOver source w (st.toNode source)) := by
  obtain ⟨first, more, rfl, -⟩ := Grammar.beginsTerm_of_mem_expression_mul hw
  have hfirst : s.position = first.span.start := by rw [ParserState.position, hs.next_cons]
  obtain ⟨value, close, hvalue, hclose, hparts⟩ := Grammar.mem_mul_one.1 hw
  rw [hparts] at hs ⊢
  refine (accepts_anExpression hvalue hs.front hclose).bind fun e t ht he => ?_
  refine (Accepts.expect (hs.behind ht) hclose).last fun last _ _ hlast => .pure ?_
  exact ⟨first, close, by rw [← hparts]; rfl, List.getLast?_concat, by rw [hlast, he, hfirst]; rfl⟩

/-- Behind the first token of an expression there is no equals sign. -/
theorem following_ne_equals (hw : w ∈ Grammar.expression * Grammar.mark ";")
    (hs : s.Faces w rest finish) : (s.ahead.tail.headD s.finish).text ≠ "=" := by
  have hother : ∀ text : String, text ≠ "=" → ∀ t : Token, t.is text = true → t.text ≠ "=" := by
    intro text hne t h
    simp only [Token.is, Bool.and_eq_true, beq_iff_eq] at h
    rw [h.2]
    exact hne
  rw [Grammar.expression, mul_assoc] at hw
  obtain ⟨first, hfirst, _, hmore, rfl⟩ := Language.mem_mul.1 hw
  obtain ⟨sum, close, hsum, hclose, rfl⟩ := Grammar.mem_mul_one.1 hmore
  obtain ⟨name, more, rfl, -⟩ := Grammar.beginsTerm_of_mem_term hfirst
  rw [hs.ahead, hs.finish]
  -- The first term is a single token, or a name and its arguments.
  rcases Grammar.eq_nil_or_of_cons_mem_term hfirst with rfl | ⟨opening, inside, rfl, hopen⟩
  · have hbehind := headD_kstar finish ([close] ++ rest) (hother "+" (by decide))
      (hother _ (by decide) close hclose) sum hsum
    rw [← List.append_assoc] at hbehind
    exact hbehind
  · exact hother _ (by decide) opening hopen

/-- The equals sign of an assignment tells it from an expression. -/
theorem accepts_assignmentOrExpression
    (hw : w ∈ Grammar.assignment + Grammar.expression * Grammar.mark ";")
    (hs : s.Faces w rest finish) :
    Accepts s assignmentOrExpression w (fun st => IsOver source w (st.toNode source)) := by
  show Accepts s (if s.next.isIdentifier && (s.ahead.tail.headD s.finish).text == "=" then _ else _)
    _ _
  rcases hw with hw | hw
  · have hparts := hw
    simp only [Grammar.assignment, mul_assoc] at hparts
    obtain ⟨name, _, hname, hbehind, rfl⟩ := Grammar.mem_one_mul.1 hparts
    obtain ⟨equals, _, hequals, -, rfl⟩ := Grammar.mem_one_mul.1 hbehind
    have hequals : equals.text = "=" := by
      simp only [Token.is, Bool.and_eq_true, beq_iff_eq] at hequals
      exact hequals.2
    have hfollowing : s.ahead.tail.headD s.finish = equals := by
      rw [hs.ahead]
      rfl
    rw [hs.next_cons, hname, hfollowing, hequals]
    exact accepts_assignment hw hs
  · have hexpression : (s.next.isIdentifier && (s.ahead.tail.headD s.finish).text == "=") = false := by
      rw [beq_eq_false_iff_ne.2 (following_ne_equals hw hs), Bool.and_false]
    rw [hexpression]
    exact accepts_expressionStatement hw hs

theorem accepts_bodyStatement (hw : w ∈ Grammar.bodyStatement) (hs : s.Faces w rest finish) :
    Accepts s (bodyStatement source) w (fun st => IsOver source w (st.toNode source)) := by
  rw [Grammar.bodyStatement, add_assoc] at hw
  refine .current_bind ?_
  rcases hw with (hw | hw) | hw
  · obtain ⟨token, more, rfl, hvar⟩ := Grammar.exists_first_of_mem_variableDeclaration hw
    rw [hs.next_cons, hvar, Token.is_eq hvar]
    exact accepts_variableDeclaration hw hs
  · obtain ⟨token, more, rfl, hreturn⟩ : ∃ t more, w = t :: more ∧ t.is "return" = true := by
      rw [mul_assoc] at hw
      exact Grammar.exists_first_of_mem_mark_mul hw
    rw [hs.next_cons, hreturn, Token.is_eq hreturn, Token.is_eq hreturn, Token.is_eq hreturn]
    exact accepts_giveBack hw hs
  · have hbegins := Grammar.beginsTerm_of_mem_assignment_or hw
    rw [hs.next_is hbegins "import" (by decide),
      hs.next_is hbegins "var" (by decide),
      hs.next_is hbegins "function" (by decide),
      hs.next_is hbegins "return" (by decide)]
    exact accepts_assignmentOrExpression hw hs

/-- A statement in a body does not close the body, nor is it the end. -/
theorem next_of_bodyStatement (hw : w ∈ Grammar.bodyStatement) (hs : s.Faces w rest finish) :
    s.next.is "\x7d" = false ∧ s.next.kind ≠ .finish := by
  obtain ⟨token, more, rfl, htoken⟩ := Grammar.exists_first_of_mem_bodyStatement hw
  rw [hs.next_cons]
  rcases htoken with hvar | hreturn | hbegins
  · exact ⟨Token.is_eq hvar _, Meets.kind_ne_finish hvar⟩
  · exact ⟨Token.is_eq hreturn _, Meets.kind_ne_finish hreturn⟩
  · exact ⟨Token.is_of_beginsTerm hbegins (hs.proper token List.mem_cons_self) (by decide),
      Token.kind_ne_finish_of_beginsTerm hbegins⟩

/-- Where nothing is wrong nothing is passed over. -/
theorem accepts_orSkip {p : Parser α} (h : Accepts s p w P) :
    Accepts s (orSkip source p) w (fun o => ∃ a, o = some a ∧ P a) := by
  obtain ⟨a, t, hp, hw, ha⟩ := h
  refine ⟨some a, t, ?_, hw, a, rfl, ha⟩
  simp only [orSkip, hp]

/-! ## Functions and units -/

/-- Where no word is empty, there are no more words than tokens. -/
theorem length_le_length_flatten {l : Language Token} (hnil : [] ∉ l) {words : List (List Token)}
    (h : ∀ w ∈ words, w ∈ l) : words.length ≤ words.flatten.length := by
  induction words with
  | nil => exact Nat.le_refl _
  | cons w words ih =>
    obtain ⟨hw, hmore⟩ := List.forall_mem_cons.1 h
    have hpos : 0 < w.length := List.length_pos_iff.2 fun heq => hnil (heq ▸ hw)
    have hle := ih hmore
    simp only [List.length_cons, List.flatten_cons, List.length_append]
    omega

theorem accepts_moreParameters :
    ∀ w ∈ (Grammar.mark "," * Grammar.name)∗, ∀ {s : ParserState} n rest finish,
    s.Faces w rest finish → w.length ≤ n → (rest.headD finish).is ")" = true →
    Accepts s (moreParameters source n) w (fun _ => True) := by
  refine kstar_induction ?_ fun token v w hcomma hv _ ih => ?_
  · intro s n rest finish hs _ hclose
    cases n with
    | zero => exact .pure trivial
    | succ n =>
      refine .check_bind ?_
      rw [hs.next, List.nil_append, Token.is_eq hclose]
      exact .pure trivial
  · intro s n rest finish hs hfuel hclose
    obtain ⟨name, hname, rfl⟩ := hv
    rw [List.length_cons, List.length_append] at hfuel
    cases n with
    | zero => omega
    | succ n =>
      refine .check_bind ?_
      rw [hs.next_cons, hcomma]
      refine (Accepts.advance (hs.front (v := [token]))).bind fun _ t ht _ => ?_
      have ht := hs.behind (v := [token]) ht
      refine (Accepts.identifier ht.front hname).bind fun _ u hu _ => ?_
      have hu := ht.behind hu
      refine (Accepts.declare source _).bind (v := []) fun _ v hv _ => ?_
      exact (ih n rest finish (hu.behind (v := []) hv) (by omega) hclose).last fun _ _ _ _ =>
        .pure trivial

theorem accepts_parameters
    (hw : w ∈ Grammar.optional (Grammar.name * (Grammar.mark "," * Grammar.name)∗))
    (hs : s.Faces w rest finish) (hclose : (rest.headD finish).is ")" = true) :
    Accepts s (parameters source) w (fun _ => True) := by
  refine .check_bind ?_
  rcases Grammar.mem_optional.1 hw with rfl | hw
  · rw [hs.next, List.nil_append, hclose]
    exact .pure trivial
  · obtain ⟨name, more, hname, hmore, rfl⟩ := Grammar.mem_one_mul.1 hw
    have hbegins : Grammar.BeginsTerm ([name] ++ more) := ⟨name, more, rfl, by
      simp only [Token.beginsTerm, hname, Bool.or_true]⟩
    rw [hs.next_is hbegins _ (by decide)]
    refine (Accepts.identifier hs.front hname).bind fun _ t ht _ => ?_
    have ht := hs.behind ht
    refine (Accepts.declare source _).bind (v := []) fun _ u hu _ => .get_bind ?_
    have hu := ht.behind (v := []) hu
    refine (accepts_moreParameters more hmore _ rest finish hu ?_ hclose).last fun _ _ _ _ =>
      .pure trivial
    rw [hu.ahead, List.length_append]
    exact Nat.le_add_right _ _

/-- The statements of a body are read up to its closing brace. -/
theorem accepts_body (words : List (List Token)) :
    ∀ {s : ParserState} n, (∀ w ∈ words, w ∈ Grammar.bodyStatement) →
    s.Faces words.flatten rest finish → words.length < n →
    (rest.headD finish).is "\x7d" = true →
    Accepts s (body source n) words.flatten (fun _ => True) := by
  induction words with
  | nil =>
    intro s n _ hs hfuel hclose
    cases n with
    | zero => exact absurd hfuel (Nat.not_lt_zero _)
    | succ n =>
      refine .check_bind ?_
      rw [hs.next, List.flatten_nil, List.nil_append, hclose]
      exact .pure trivial
  | cons w words ih =>
    intro s n hwords hs hfuel hclose
    obtain ⟨hw, hmore⟩ := List.forall_mem_cons.1 hwords
    rw [List.length_cons] at hfuel
    cases n with
    | zero => omega
    | succ n =>
      rw [List.flatten_cons] at hs ⊢
      obtain ⟨hopen, hkind⟩ := next_of_bodyStatement hw hs.front
      refine .check_bind ?_
      rw [hopen]
      refine .current_bind ?_
      rw [beq_eq_false_iff_ne.2 hkind]
      refine (accepts_orSkip (accepts_bodyStatement hw hs.front)).bind fun _ t ht _ => ?_
      exact (ih n hmore (hs.behind ht) (by omega) hclose).last fun _ _ _ _ => .pure trivial

theorem accepts_functionDefinition
    (hw : w ∈ Grammar.mark "function" * Grammar.name * Grammar.mark "("
      * Grammar.optional (Grammar.name * (Grammar.mark "," * Grammar.name)∗) * Grammar.mark ")"
      * Grammar.mark "\x7b" * Grammar.bodyStatement∗ * Grammar.mark "\x7d")
    (hs : s.Faces w rest finish) :
    Accepts s (functionDefinition source) w (fun i => IsOver source w (i.toNode source)) := by
  simp only [mul_assoc] at hw
  obtain ⟨start, _, hstart, hnamed, rfl⟩ := Grammar.mem_one_mul.1 hw
  obtain ⟨name, _, hname, hlisted, rfl⟩ := Grammar.mem_one_mul.1 hnamed
  obtain ⟨opening, _, hopening, hparameters, rfl⟩ := Grammar.mem_one_mul.1 hlisted
  obtain ⟨list, hlist, _, hended, rfl⟩ := Language.mem_mul.1 hparameters
  obtain ⟨closing, _, hclosing, hbraced, rfl⟩ := Grammar.mem_one_mul.1 hended
  obtain ⟨brace, _, hbrace, hbody, rfl⟩ := Grammar.mem_one_mul.1 hbraced
  obtain ⟨inside, close, hinside, hclose, rfl⟩ := Grammar.mem_mul_one.1 hbody
  obtain ⟨words, rfl, hwords⟩ := Language.mem_kstar.1 hinside
  refine (Accepts.advance hs.front).bind fun first t ht hfirst => ?_
  have ht := hs.behind ht
  refine (Accepts.identifier ht.front hname).bind fun _ u hu _ => ?_
  have hu := ht.behind hu
  refine (Accepts.expect hu.front hopening).bind fun _ v hv _ => ?_
  have hv := hu.behind hv
  refine (accepts_parameters hlist hv.front hclosing).bind fun _ x hx _ => ?_
  have hx := hv.behind hx
  refine (Accepts.expect hx.front hclosing).bind fun _ y hy _ => ?_
  have hy := hx.behind hy
  refine (Accepts.expect hy.front hbrace).bind fun _ z hz _ => .get_bind ?_
  have hz := hy.behind hz
  refine (accepts_body words _ hwords hz.front ?_ hclose).bind fun _ end' hend _ => ?_
  · -- The fuel of a body is the number of tokens ahead, which are more than its statements.
    rw [hz.ahead]
    have hlength := length_le_length_flatten Grammar.nil_notMem_bodyStatement hwords
    simp only [List.length_append]
    omega
  · refine (Accepts.advance (hz.behind hend)).last fun last _ _ hlast => ?_
    refine (Accepts.declare source _).last fun _ _ _ _ => .pure ?_
    exact ⟨start, close, rfl, by simp only [← List.append_assoc, List.getLast?_concat],
      by rw [hfirst, hlast]; rfl⟩

theorem accepts_importDirective
    (hw : w ∈ Grammar.mark "import" * Grammar.string * Grammar.mark ";")
    (hs : s.Faces w rest finish) :
    Accepts s importDirective w (fun i => IsOver source w (i.toNode source)) := by
  simp only [mul_assoc] at hw
  obtain ⟨start, _, hstart, hpath, rfl⟩ := Grammar.mem_one_mul.1 hw
  obtain ⟨path, _, hstring, ⟨close, hclose, rfl⟩, rfl⟩ := Grammar.mem_one_mul.1 hpath
  refine (Accepts.advance hs.front).bind fun first t ht hfirst => .current_bind ?_
  have ht := hs.behind ht
  rw [ht.next_cons, hstring]
  refine (Accepts.advance ht.front).bind fun _ u hu _ => ?_
  refine (Accepts.expect (ht.behind hu) hclose).last fun last _ _ hlast => .pure ?_
  exact ⟨start, close, rfl, by simp only [← List.append_assoc, List.getLast?_concat],
    by rw [hfirst, hlast]; rfl⟩

theorem accepts_item (hw : w ∈ Grammar.top) (hs : s.Faces w rest finish) :
    Accepts s (item source) w (fun i => IsOver source w (i.toNode source)) := by
  rw [Grammar.top, add_assoc] at hw
  refine .current_bind ?_
  rcases hw with ((hw | hw) | hw) | hw
  · obtain ⟨token, more, rfl, himport⟩ : ∃ t more, w = t :: more ∧ t.is "import" = true := by
      rw [mul_assoc] at hw
      exact Grammar.exists_first_of_mem_mark_mul hw
    rw [hs.next_cons, himport]
    exact accepts_importDirective hw hs
  · obtain ⟨token, more, rfl, hvar⟩ := Grammar.exists_first_of_mem_variableDeclaration hw
    rw [hs.next_cons, hvar, Token.is_eq hvar]
    exact (accepts_variableDeclaration hw hs).last fun _ _ _ h => .pure h
  · obtain ⟨token, more, rfl, hfunction⟩ : ∃ t more, w = t :: more ∧ t.is "function" = true := by
      have hparts := hw
      simp only [mul_assoc] at hparts
      exact Grammar.exists_first_of_mem_mark_mul hparts
    rw [hs.next_cons, hfunction, Token.is_eq hfunction, Token.is_eq hfunction]
    exact accepts_functionDefinition hw hs
  · have hbegins := Grammar.beginsTerm_of_mem_assignment_or hw
    rw [hs.next_is hbegins "import" (by decide),
      hs.next_is hbegins "var" (by decide),
      hs.next_is hbegins "function" (by decide),
      hs.next_is hbegins "return" (by decide)]
    exact (accepts_assignmentOrExpression hw hs).last fun _ _ _ h => .pure h

/-- An item is not the end. -/
theorem next_of_top (hw : w ∈ Grammar.top) (hs : s.Faces w rest finish) :
    s.next.kind ≠ .finish := by
  obtain ⟨token, more, rfl, htoken⟩ := Grammar.exists_first_of_mem_top hw
  rw [hs.next_cons]
  rcases htoken with himport | hvar | hfunction | hbegins
  · exact Meets.kind_ne_finish himport
  · exact Meets.kind_ne_finish hvar
  · exact Meets.kind_ne_finish hfunction
  · exact Token.kind_ne_finish_of_beginsTerm hbegins

/-- A list of items is read up to the end, each of them in its place. -/
theorem accepts_items (words : List (List Token)) :
    ∀ {s : ParserState} n, (∀ w ∈ words, w ∈ Grammar.top) → s.Faces words.flatten [] finish →
    words.length < n → finish.kind = .finish →
    Accepts s (items source n) words.flatten
      (fun l => List.Forall₂ (fun w i => IsOver source w (i.toNode source)) words l) := by
  induction words with
  | nil =>
    intro s n _ hs hfuel hfinish
    cases n with
    | zero => exact absurd hfuel (Nat.not_lt_zero _)
    | succ n =>
      refine .current_bind ?_
      rw [hs.next, List.flatten_nil, List.nil_append, List.headD_nil, hfinish]
      exact .pure .nil
  | cons w words ih =>
    intro s n hwords hs hfuel hfinish
    obtain ⟨hw, hmore⟩ := List.forall_mem_cons.1 hwords
    rw [List.length_cons] at hfuel
    cases n with
    | zero => omega
    | succ n =>
      rw [List.flatten_cons] at hs ⊢
      refine .current_bind ?_
      rw [beq_eq_false_iff_ne.2 (next_of_top hw hs.front)]
      refine (accepts_orSkip (accepts_item hw hs.front)).bind fun o t ht ho => ?_
      obtain ⟨i, rfl, hi⟩ := ho
      exact (ih n hmore (hs.behind ht) (by omega) hfinish).last fun _ _ _ h => .pure (.cons hi h)

/-- The reading of a unit reaches the end. -/
theorem reaches_end (n : Nat) : ∀ s : ParserState, s.finish.kind = .finish → s.ahead.length < n →
    ∃ l t, items source n s = .ok l t ∧ t.next.kind = .finish := by
  induction n with
  | zero => exact fun s _ hfuel => absurd hfuel (Nat.not_lt_zero _)
  | succ n ih =>
    intro s hs hfuel
    have hitems : items source (n + 1) s = (if s.next.kind == .finish then Pure.pure [] else do
        let item ← orSkip source (item source)
        return item.toList ++ (← items source n) : Parser (List Item)) s := rfl
    by_cases hfinish : s.next.kind = .finish
    · refine ⟨[], s, ?_, hfinish⟩
      rw [hitems, hfinish]
      rfl
    · -- With a mistake or without one, an item takes something.
      obtain ⟨o, t, hskip⟩ := orSkip_eq_ok source (item source) s
      obtain ⟨hend, hshorter⟩ := (obeys_orSkip obeys_item (ahead_ne_nil hs hfinish)).shorter hs
        Grammar.nil_notMem_top hskip
      obtain ⟨l, u, hmore, hu⟩ := ih t (hend ▸ hs) (by omega)
      refine ⟨o.toList ++ l, u, ?_, hu⟩
      rw [hitems, beq_eq_false_iff_ne.2 hfinish]
      simp only [Bool.false_eq_true, if_false, Bind.bind, EStateM.bind, hskip, hmore]
      rfl

end Parser

/-! ## Units -/

/-- The state before a text is read into a draft. -/
def ParserState.before (text : String) (draft : Draft) : ParserState :=
  { ahead := tokens text.toList, finish := endToken text.toList, draft }

/-- A unit is what is read up to the end. -/
theorem parseFile_of_items {source text : String} {draft : Draft} {l : List Item} {t : ParserState}
    (h : Parser.items source ((tokens text.toList).length + 1) (.before text draft) = .ok l t) :
    parseFile source text draft = (⟨source, text.toList.length, l⟩, t.draft) := by
  unfold ParserState.before at h
  simp only [parseFile, h]

/-- A list of items is read without a mistake, each of them in its place. -/
theorem parseFile_of_flatten_eq (source : String) {text : String} (draft : Draft)
    {words : List (List Token)} (hwords : ∀ w ∈ words, w ∈ Grammar.top)
    (htokens : words.flatten = tokens text.toList) :
    (parseFile source text draft).2.mistakes = draft.mistakes ∧
      List.Forall₂ (IsOver source) words (parseFile source text draft).1.toUnit.root.children := by
  have hfaces : (ParserState.before text draft).Faces words.flatten [] (endToken text.toList) :=
    ⟨by rw [List.append_nil, htokens]; rfl, rfl, fun t ht => isProper_of_mem_tokens (htokens ▸ ht)⟩
  have hlength := Parser.length_le_length_flatten Grammar.nil_notMem_top hwords
  have haccepts : Parser.Accepts _ (Parser.items source _) _ _ :=
    Parser.accepts_items words _ hwords hfaces (Nat.lt_succ_of_le hlength) rfl
  obtain ⟨l, t, hitems, hpasses, hplaces⟩ := haccepts
  rw [htokens] at hitems
  rw [parseFile_of_items hitems]
  refine ⟨hpasses.mistakes, ?_⟩
  show List.Forall₂ _ _ (l.map _)
  rw [List.forall₂_map_right_iff]
  exact hplaces

/-- What is read without a mistake is a list of items. -/
theorem tokens_mem_of_mistakes_eq {source text : String} {draft : Draft}
    (h : (parseFile source text draft).2.mistakes = draft.mistakes) :
    tokens text.toList ∈ Grammar.top∗ := by
  have hreaches : ∃ l t, Parser.items source _ (.before text draft) = .ok l t ∧ _ :=
    Parser.reaches_end _ (.before text draft) rfl (Nat.lt_succ_self _)
  have hobeys : Parser.Obeys (.before text draft) (Parser.items source _) _ :=
    Parser.obeys_items _ _ (Nat.lt_succ_self _)
  obtain ⟨l, t, hitems, hend⟩ := hreaches
  have hderives := hobeys rfl
  rw [parseFile_of_items hitems] at h
  rw [hitems] at hderives
  cases hderives.2 with
  | mistaken _ _ hmistakes => exact absurd h (Nat.ne_of_gt hmistakes)
  | @word w hw hahead _ =>
    have hnil : t.ahead = [] := by
      cases hrest : t.ahead with
      | nil => rfl
      | cons token rest =>
        have hmem : token ∈ tokens text.toList := by
          show token ∈ (ParserState.before text draft).ahead
          rw [hahead, hrest]
          exact List.mem_append_right _ List.mem_cons_self
        rw [ParserState.next, hrest, List.headD_cons] at hend
        exact absurd hend (isPieceOf_of_mem_tokens hmem).kind
    rw [hnil, List.append_nil] at hahead
    show (ParserState.before text draft).ahead ∈ _
    rwa [hahead]

/-- A text is read without a mistake just if it is grammatical, and then each item of it is read in
its place. -/
theorem mistakes_parseFile_iff (source text : String) (draft : Draft) :
    ((parseFile source text draft).2.mistakes = draft.mistakes ↔
        tokens text.toList ++ [endToken text.toList] ∈ Grammar.unit) ∧
      ∀ words : List (List Token), (∀ w ∈ words, w ∈ Grammar.top) →
        words.flatten = tokens text.toList →
        List.Forall₂ (IsOver source) words (parseFile source text draft).1.toUnit.root.children := by
  refine ⟨⟨fun h => ?_, fun h => ?_⟩, fun words hwords htokens => ?_⟩
  · exact Grammar.mem_mul_one.2 ⟨_, _, tokens_mem_of_mistakes_eq h, rfl, rfl⟩
  · obtain ⟨v, last, hv, -, heq⟩ := Grammar.mem_mul_one.1 h
    obtain ⟨words, rfl, hwords⟩ := Language.mem_kstar.1 hv
    have htokens := (List.append_inj' heq rfl).1
    exact (parseFile_of_flatten_eq source draft hwords htokens.symm).1
  · exact (parseFile_of_flatten_eq source draft hwords htokens).2

end LanguageServer.Toy
