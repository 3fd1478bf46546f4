import LanguageServer.Proofs.Toy.Rows

/-!
# How units are laid out

What is read stands where it was read: the constructs of a unit lie one behind the other and
inside one another as their tokens do, and what they declare is declared at the name tokens
inside them, each under a handle of its own.  Mistakes are passed over: they leave no trace
but their finding and what was declared before them.

## Main definitions

* `Parser.Meets` — what a reader does to its state, and what it yields.
* `Parser.ExpressionCases` — what is to be shown of expressions, case by case.

## Main statements

* `Parser.ExpressionCases.meets` — what is shown case by case holds of the expressions that are read.
* `Parser.meets_items` — the items of a unit stand in a row.
* `parseFile_sound` — a unit is sound.
-/

namespace LanguageServer.Toy

/-! ## Readers -/

namespace Parser

variable {α β : Type} {source : String} {text : List Char} {s : ParserState}
  {Q : α → ParserState → Prop} {R : β → ParserState → Prop}

/-- A reader leads from a state to others of a kind; if it fails, then at a token of the text. -/
def Meets (source : String) (text : List Char) (s : ParserState) (p : Parser α)
    (Q : α → ParserState → Prop) : Prop :=
  match p s with
  | .ok a t => s.Leads source text t ∧ Q a t
  | .error e t => s.Leads source text t ∧ e.token.IsIn text

/-- What was expected is no end. -/
theorem Meets.kind_ne_finish {token : Token} {mark : String} (h : token.is mark = true) :
    token.kind ≠ .finish := by
  intro hfinish
  simp [Token.is, hfinish] at h

/-- The token under a mark is no end. -/
theorem next_mem_of_is (hs : s.ReadsIn text) {mark : String} (h : s.next.is mark = true) :
    s.next ∈ tokens text := hs.next_mem (Meets.kind_ne_finish h)

theorem next_mem_of_isIdentifier (hs : s.ReadsIn text) (h : s.next.isIdentifier = true) :
    s.next ∈ tokens text ∧ s.next.kind = .name := by
  have hkind : s.next.kind = .name := by
    simp only [Token.isIdentifier, Bool.and_eq_true, beq_iff_eq] at h
    exact h.1
  exact ⟨hs.next_mem (by simp [hkind]), hkind⟩

namespace Meets

theorem pure {a : α} (h : Q a s) : Meets source text s (Pure.pure a) Q := ⟨.refl s, h⟩

theorem bind {p : Parser α} {q : α → Parser β} (hp : Meets source text s p Q)
    (hq : ∀ a t, s.Leads source text t → Q a t → Meets source text t (q a) R) :
    Meets source text s (p >>= q) R := by
  unfold Meets at hp ⊢
  simp only [Bind.bind, EStateM.bind]
  cases hresult : p s with
  | error e t =>
    rw [hresult] at hp
    exact hp
  | ok a t =>
    rw [hresult] at hp
    have hnext := hq a t hp.1 hp.2
    unfold Meets at hnext
    simp only
    cases hresult' : q a t <;> rw [hresult'] at hnext
    · exact ⟨hp.1.trans hnext.1, hnext.2⟩
    · exact ⟨hp.1.trans hnext.1, hnext.2⟩

/-! Looking at the tokens ahead changes nothing. -/

theorem get_bind {q : ParserState → Parser β} (hq : Meets source text s (q s) R) :
    Meets source text s (get >>= q) R := hq

theorem current_bind {q : Token → Parser β} (hq : Meets source text s (q s.next) R) :
    Meets source text s (current >>= q) R := hq

theorem following_bind {q : Token → Parser β} (hq : ∀ token, Meets source text s (q token) R) :
    Meets source text s (following >>= q) R := hq _

theorem check_bind {mark : String} {q : Bool → Parser β}
    (hq : Meets source text s (q (s.next.is mark)) R) :
    Meets source text s (check mark >>= q) R := hq

theorem reject (hs : s.ReadsIn text) (problem : SyntaxProblem) :
    Meets source text s (Parser.reject problem) Q := ⟨.refl s, hs.next_isIn⟩

/-! Taking tokens. -/

theorem advance_bind {q : Token → Parser β} (hq : Meets source text s.rest (q s.next) R) :
    Meets source text s (advance >>= q) R :=
  bind (Q := fun token t => token = s.next ∧ t = s.rest)
    ⟨.rest s, rfl, rfl⟩ fun _ _ _ => by
      rintro ⟨rfl, rfl⟩
      exact hq

theorem expect_bind (hs : s.ReadsIn text) {mark : String} {q : Token → Parser β}
    (hq : s.next ∈ tokens text → Meets source text s.rest (q s.next) R) :
    Meets source text s (expect mark >>= q) R := by
  refine bind (Q := fun token t => s.next ∈ tokens text ∧ token = s.next ∧ t = s.rest) ?_ ?_
  · refine check_bind ?_
    split
    · next hmark => exact ⟨.rest s, next_mem_of_is hs hmark, rfl, rfl⟩
    · exact reject hs _
  · rintro _ _ _ ⟨hmem, rfl, rfl⟩
    exact hq hmem

theorem identifier_bind (hs : s.ReadsIn text) {q : Name → Parser β}
    (hq : s.next.toName.IsTokenOf text → Meets source text s.rest (q s.next.toName) R) :
    Meets source text s (identifier >>= q) R := by
  refine bind (Q := fun name t => s.next.toName.IsTokenOf text ∧ name = s.next.toName ∧ t = s.rest)
    ?_ ?_
  · refine current_bind ?_
    split
    · next hname =>
      obtain ⟨hmem, hkind⟩ := next_mem_of_isIdentifier hs hname
      exact ⟨.rest s, ⟨s.next, hmem, hkind, rfl⟩, rfl, rfl⟩
    · exact reject hs _
  · rintro _ _ _ ⟨htoken, rfl, rfl⟩
    exact hq htoken

theorem declare_bind (hs : s.ReadsIn text) {name : Name} {q : Int → Parser β}
    (hq : Meets source text (s.declare source name) (q s.draft.nextHandle) R) :
    Meets source text s (declare source name >>= q) R :=
  bind (Q := fun handle t => handle = s.draft.nextHandle ∧ t = s.declare source name)
    ⟨hs.leads_declare name, rfl, rfl⟩ fun _ _ _ => by
      rintro ⟨rfl, rfl⟩
      exact hq

end Meets

/-! ## Expressions -/

theorem location_toNode (source : String) (e : Expr) :
    (e.toNode source).location = e.span.within source := by
  cases e <;> rfl

theorem toNodes_eq_map (source : String) (l : List Expr) :
    Expr.toNodes source l = l.map (·.toNode source) := by
  induction l with
  | nil => rfl
  | cons e rest ih => rw [Expr.toNodes, ih, List.map_cons]

/-- A sum reaches from its first operand to its last one. -/
theorem lays_sum {t : ParserState} (hs : s.ReadsIn text) (hst : s.Leads source text t)
    {first : Expr} {rest : List Expr}
    (h : Lays source text s t [] (Expr.toNodes source (first :: rest))) :
    Lays source text s t [] [(Expr.sum (first :: rest) (spanOf first rest)).toNode source] := by
  have ht := hs.leads hst
  have hline : Node.InLine s.position t.position
      (first.toNode source :: Expr.toNodes source rest) := h.inLine
  have hsame : (Expr.toNodes source rest).getLastD (first.toNode source) =
      (rest.getLastD first).toNode source := by
    rw [toNodes_eq_map, List.getLastD_eq_getLast?, List.getLastD_eq_getLast?, List.getLast?_map]
    cases rest.getLast? <;> rfl
  have hfirst := hline.of_mem List.mem_cons_self
  have hlast := hline.of_mem List.getLastD_mem_cons
  have htight := hline.tighten
  rw [hsame] at hlast htight
  rw [location_toNode] at hfirst hlast
  rw [location_toNode, location_toNode] at htight
  have hspan := htight.of_mem List.mem_cons_self
  rw [location_toNode] at hspan
  refine IsRow.above (n := (Expr.sum (first :: rest) (spanOf first rest)).toNode source)
    { h with inLine := htight } rfl ?_ (Int.natCast_nonneg _) hfirst.1 hlast.2.2
    (Int.ofNat_le.2 ht.position_le_length) (fun _ _ hx => hx) (Int.le_refl _) (fun _ => nofun)
    (fun _ => nofun) hst.draft.count
  exact Int.lt_of_lt_of_le hspan.2.1 hspan.2.2

/-- A case for each way to read an expression: `E` is what holds of an expression and the states in
front of it and behind it, `M` of the operands or arguments behind the first one, and `A` of all
arguments of a call. -/
structure ExpressionCases (source : String) (text : List Char)
    (E : ParserState → Expr → ParserState → Prop)
    (M A : ParserState → List Expr → ParserState → Prop) : Prop where
  number : ∀ {s}, s.ReadsIn text → s.next ∈ tokens text → E s (.number s.next.span) s.rest
  string : ∀ {s}, s.ReadsIn text → s.next ∈ tokens text → E s (.string s.next.span) s.rest
  use : ∀ {s}, s.ReadsIn text → s.next ∈ tokens text → s.next.kind = .name →
    E s (.use ⟨s.next.toName, none⟩) s.rest
  call : ∀ {s t l}, s.ReadsIn text → s.next ∈ tokens text → s.next.kind = .name →
    s.rest.next ∈ tokens text → s.rest.rest.Leads source text t → A s.rest.rest l t →
    t.next ∈ tokens text →
    E s (.call ⟨s.next.toName, none⟩ l ⟨s.next.span.start, t.next.span.stop⟩) t.rest
  alone : ∀ {s t u e}, s.ReadsIn text → s.Leads source text t → E s e t → t.Leads source text u →
    E s e u
  sum : ∀ {s t u e l}, s.ReadsIn text → s.Leads source text t → E s e t → t.Leads source text u →
    M t l u → E s (.sum (e :: l) (spanOf e l)) u
  none : ∀ {s}, s.ReadsIn text → M s [] s
  more : ∀ {s t u e l}, s.ReadsIn text → s.next ∈ tokens text → s.rest.Leads source text t →
    E s.rest e t → t.Leads source text u → M t l u → M s (e :: l) u
  noArguments : ∀ {s}, s.ReadsIn text → A s [] s
  arguments : ∀ {s t u e l}, s.ReadsIn text → s.Leads source text t → E s e t →
    t.Leads source text u → M t l u → A s (e :: l) u

/-- What every way to read an expression leads to holds of the expressions that are read. -/
theorem ExpressionCases.meets {E : ParserState → Expr → ParserState → Prop}
    {M A : ParserState → List Expr → ParserState → Prop} (h : ExpressionCases source text E M A)
    (n : Nat) : ∀ {s : ParserState}, s.ReadsIn text →
    Meets source text s (term n) (E s) ∧ Meets source text s (expression n) (E s) ∧
      Meets source text s (moreOperands n) (M s) ∧ Meets source text s (moreArguments n) (M s) := by
  -- The readers call each other with less fuel, so the induction is on that for all of them.
  induction n with
  | zero =>
    intro s hs
    exact ⟨.reject hs _, .reject hs _, .pure (h.none hs), .pure (h.none hs)⟩
  | succ n ih =>
    intro s hs
    have hrest := hs.rest
    have hrest' := hrest.rest
    refine ⟨?_, ?_, ?_, ?_⟩
    · unfold term
      refine .current_bind ?_
      split
      · next hkind => exact .advance_bind (.pure (h.number hs (hs.next_mem (by simp [hkind]))))
      · next hkind => exact .advance_bind (.pure (h.string hs (hs.next_mem (by simp [hkind]))))
      · split
        · next hname =>
          obtain ⟨hmem, hkind⟩ := next_mem_of_isIdentifier hs hname
          refine .advance_bind (.check_bind ?_)
          split
          · next hopen =>
            refine .advance_bind (.bind (Q := A s.rest.rest) (.check_bind ?_) ?_)
            · split
              · exact .pure (h.noArguments hrest')
              · exact (ih hrest').2.1.bind fun first t ht hfirst =>
                  (ih (hrest'.leads ht)).2.2.2.bind fun rest u hu hmore =>
                    .pure (h.arguments hrest' ht hfirst hu hmore)
            · intro arguments t ht harguments
              exact .expect_bind (hrest'.leads ht) fun hclose => .pure
                (h.call hs hmem hkind (next_mem_of_is hrest hopen) ht harguments hclose)
          · exact .pure (h.use hs hmem hkind)
        · exact .reject hs _
    · unfold expression
      refine (ih hs).1.bind fun first t ht hfirst =>
        (ih (hs.leads ht)).2.2.1.bind fun rest u hu hmore => ?_
      split
      · exact .pure (h.alone hs ht hfirst hu)
      · exact .pure (h.sum hs ht hfirst hu hmore)
    · unfold moreOperands
      refine .check_bind ?_
      split
      · next hplus =>
        exact .advance_bind ((ih hrest).1.bind fun operand t ht hoperand =>
          (ih (hrest.leads ht)).2.2.1.bind fun more u hu hmore =>
            .pure (h.more hs (next_mem_of_is hs hplus) ht hoperand hu hmore))
      · exact .pure (h.none hs)
    · unfold moreArguments
      refine .check_bind ?_
      split
      · next hcomma =>
        exact .advance_bind ((ih hrest).2.1.bind fun argument t ht hargument =>
          (ih (hrest.leads ht)).2.2.2.bind fun more u hu hmore =>
            .pure (h.more hs (next_mem_of_is hs hcomma) ht hargument hu hmore))
      · exact .pure (h.none hs)

/-- The trees of expressions lie between the tokens around them. -/
theorem lays_expressions : ExpressionCases source text
    (fun s e t => Lays source text s t [] [e.toNode source])
    (fun s l t => Lays source text s t [] (Expr.toNodes source l))
    (fun s l t => Lays source text s t [] (Expr.toNodes source l)) where
  number hs hmem := .leaf hs hmem rfl rfl
  string hs hmem := .leaf hs hmem rfl rfl
  use hs hmem _ := .leaf hs hmem rfl rfl
  call := by
    intro s t l hs hmem _ _ ht hlays hclose
    have hrest := hs.rest
    have hbehind := (ParserState.Leads.rest s.rest).trans ht
    have hstart := (ParserState.Leads.rest s).trans hbehind
    have hcallee : Lays source text s s.rest []
        [(⟨s.next.toName, none⟩ : Use).toNode source .read] := .leaf hs hmem rfl rfl
    have hrow := hcallee.append hs (.rest s) hbehind (hlays.before hrest (.rest _) ht)
    exact hrow.enclosed hs hstart hclose rfl rfl
  alone hs ht hfirst hu := hfirst.behind hs ht hu
  sum hs ht hfirst hu hmore := lays_sum hs (ht.trans hu) (hfirst.append hs ht hu hmore)
  none hs := .nil hs (.refl _)
  more hs _ ht hfirst hu hmore := (hfirst.append hs.rest ht hu hmore).before hs (.rest _) (ht.trans hu)
  noArguments hs := .nil hs (.refl _)
  arguments hs ht hfirst hu hmore := hfirst.append hs ht hu hmore

theorem meets_anExpression (hs : s.ReadsIn text) :
    Meets source text s anExpression (fun e t => Lays source text s t [] [e.toNode source]) :=
  .get_bind (lays_expressions.meets _ hs).2.1

/-! ## Statements -/

variable {t : ParserState}

theorem meets_firstValue (hs : s.ReadsIn text) :
    Meets source text s firstValue
      (fun v t => Lays source text s t [] (v.map (·.toNode source)).toList) := by
  have hrest : s.Leads source text s.rest := .rest s
  refine .check_bind ?_
  split
  · exact .advance_bind ((meets_anExpression (hs.leads hrest)).bind fun value t ht hvalue =>
      .pure (hvalue.before hs hrest ht))
  · exact .pure (.nil hs (.refl s))

theorem meets_typeName (hs : s.ReadsIn text) :
    Meets source text s typeName (fun v t => Lays source text s t v.toList []) := by
  have hrest : s.Leads source text s.rest := .rest s
  refine .check_bind ?_
  split
  · refine .advance_bind (.identifier_bind (hs.leads hrest) fun htoken => .pure ?_)
    exact { Lays.nil hs (hrest.trans (.rest s.rest)) with
            named := fun name hname => List.mem_singleton.1 hname ▸ htoken }
  · exact .pure (.nil hs (.refl s))

theorem meets_variableDeclaration (hs : s.ReadsIn text) :
    Meets source text s (variableDeclaration source)
      (fun st t => Lays source text s t st.names [st.toNode source]) := by
  have hname : s.Leads source text s.rest := .rest s
  have hbehind : s.rest.Leads source text s.rest.rest := .rest s.rest
  have hs' := hs.leads hname
  refine .advance_bind (.identifier_bind hs' fun htoken => ?_)
  refine (meets_typeName (hs'.leads hbehind)).bind fun typeName t ht htype => ?_
  refine (meets_firstValue ((hs'.leads hbehind).leads ht)).bind fun value u hu hvalue => ?_
  have hfront := hname.trans (hbehind.trans (ht.trans hu))
  have hu' := hs.leads hfront
  refine .expect_bind hu' fun _ => .declare_bind (hu'.rest) (.pure ?_)
  have hrow := (htype.append (hs'.leads hbehind) ht hu hvalue).before hs (hname.trans hbehind)
    (ht.trans hu)
  rw [List.append_nil] at hrow
  exact (Lays.declaring hs hfront hrow rfl htoken (hs.position_le hname)
    (Nat.le_trans (hs'.stop_le_position (ht.trans hu)) hu'.next_bounds.1) rfl rfl).naming htoken

theorem meets_assignment (hs : s.ReadsIn text) (hidentifier : s.next.isIdentifier = true) :
    Meets source text s assignment
      (fun st t => Lays source text s t st.names [st.toNode source]) := by
  have hmem : s.next ∈ tokens text := (next_mem_of_isIdentifier hs hidentifier).1
  have hequals : s.Leads source text s.rest := .rest s
  have hbehind : s.rest.Leads source text s.rest.rest := .rest s.rest
  have hs' := hs.leads hequals
  refine .advance_bind (.expect_bind hs' fun _ => ?_)
  refine (meets_anExpression (hs'.leads hbehind)).bind fun value t ht hvalue => ?_
  have hfront := hequals.trans (hbehind.trans ht)
  refine .expect_bind (hs.leads hfront) fun hclose => .pure ?_
  have htarget : Lays source text s s.rest []
      [(⟨s.next.toName, none⟩ : Use).toNode source .write] := .leaf hs hmem rfl rfl
  have hrow := htarget.append hs hequals (hbehind.trans ht) (hvalue.before hs' hbehind ht)
  exact hrow.enclosed hs hfront hclose rfl rfl

theorem meets_giveBack (hs : s.ReadsIn text) :
    Meets source text s giveBack
      (fun st t => Lays source text s t st.names [st.toNode source]) := by
  have hrest : s.Leads source text s.rest := .rest s
  have hs' := hs.leads hrest
  refine .advance_bind (.bind (Q := fun v t =>
    Lays source text s.rest t [] (v.map (·.toNode source)).toList) (.check_bind ?_) ?_)
  · split
    · exact .pure (.nil hs' (.refl _))
    · exact (meets_anExpression hs').bind fun value t _ hvalue => .pure hvalue
  · intro value t ht hvalue
    refine .expect_bind (hs'.leads ht) fun hclose => .pure ?_
    exact (hvalue.before hs hrest ht).enclosed hs (hrest.trans ht) hclose rfl rfl

theorem meets_expressionStatement (hs : s.ReadsIn text) :
    Meets source text s expressionStatement
      (fun st t => Lays source text s t st.names [st.toNode source]) := by
  refine (meets_anExpression hs).bind fun value t ht hvalue => ?_
  have ht' := hs.leads ht
  refine .expect_bind ht' fun _ => .pure ?_
  have hspan := hvalue.inLine.of_mem List.mem_cons_self
  have hline := hvalue.inLine.tighten.widen (Int.le_refl _) hspan.2.2
  rw [location_toNode] at hspan hline
  have hbounds := ht'.next_bounds
  refine Lays.closed hs ht hvalue rfl (Int.ofNat_le.1 hspan.1) hline ?_ rfl
  have hstop : value.span.start < value.span.stop := Int.ofNat_lt.1 hspan.2.1
  have hposition : value.span.stop ≤ t.position := Int.ofNat_le.1 hspan.2.2
  omega

theorem meets_assignmentOrExpression (hs : s.ReadsIn text) :
    Meets source text s assignmentOrExpression
      (fun st t => Lays source text s t st.names [st.toNode source]) := by
  refine .current_bind (.following_bind fun token => ?_)
  split
  · next hequals => exact meets_assignment hs (Bool.and_eq_true_iff.1 hequals).1
  · exact meets_expressionStatement hs

theorem meets_bodyStatement (hs : s.ReadsIn text) :
    Meets source text s (bodyStatement source)
      (fun st t => Lays source text s t st.names [st.toNode source]) := by
  refine .current_bind ?_
  repeat' split
  · exact .reject hs _
  · exact meets_variableDeclaration hs
  · exact .reject hs _
  · exact meets_giveBack hs
  · exact meets_assignmentOrExpression hs

/-! ## Going on after a mistake -/

theorem resume_suffix (start : Nat) (ahead : List Token) : resume start ahead <:+ ahead := by
  have htail : (if ahead.length = start then ahead.tail else ahead) <:+ ahead := by
    split
    · exact List.tail_suffix ahead
    · exact List.suffix_rfl
  unfold resume
  generalize (if ahead.length = start then ahead.tail else ahead) = rest at htail
  refine List.IsSuffix.trans ?_ htail
  have hdropped : rest.dropWhile (!isStop ·) <:+ rest := List.dropWhile_suffix _
  dsimp only
  split
  · exact List.nil_suffix
  · next token more hcut =>
    rw [hcut] at hdropped
    split
    · exact (List.suffix_cons token more).trans hdropped
    · exact hdropped

/-- A mistake leaves no trace but its finding and what was declared before it. -/
theorem meets_orSkip {p : Parser α} (hp : Meets source text s p Q) :
    Meets source text s (orSkip source p) (fun o t => ∀ a, o = some a → Q a t) := by
  unfold Meets at hp ⊢
  unfold orSkip
  cases hresult : p s with
  | ok a t =>
    rw [hresult] at hp
    exact ⟨hp.1, fun b hb => Option.some.inj hb ▸ hp.2⟩
  | error e t =>
    rw [hresult] at hp
    refine ⟨⟨(resume_suffix _ _).trans hp.1.ahead, hp.1.finish, ?_⟩, fun _ => nofun⟩
    refine hp.1.draft.trans ⟨fun h => h, Int.le_refl _, fun _ _ _ h => h, fun f hf => ?_⟩
    rcases List.mem_append.1 hf with hf | hf
    · exact .inl hf
    · obtain rfl := List.mem_singleton.1 hf
      exact .inr ⟨e, rfl, hp.2⟩

/-! ## Functions and units -/

/-- A parameter is declared at its only token. -/
theorem lays_parameter (hs : s.ReadsIn text) (htoken : s.next.toName.IsTokenOf text) :
    Lays source text s (s.rest.declare source s.next.toName) [s.next.toName]
      [(⟨s.next.toName, s.rest.draft.nextHandle⟩ : Parameter).toNode source] :=
  (Lays.declaring hs (.refl s) (.nil hs (.refl s)) rfl htoken (Nat.le_refl _) (Nat.le_refl _) rfl
    rfl).naming htoken

/-- The state behind a parameter. -/
theorem leads_parameter (hs : s.ReadsIn text) :
    s.Leads source text (s.rest.declare source s.next.toName) :=
  (ParserState.Leads.rest s).trans ((hs.rest).leads_declare _)

theorem meets_moreParameters (n : Nat) : ∀ {s : ParserState}, s.ReadsIn text →
    Meets source text s (moreParameters source n)
      (fun l t => Lays source text s t (l.map (·.name)) (l.map (·.toNode source))) := by
  induction n with
  | zero => exact fun hs => .pure (.nil hs (.refl _))
  | succ n ih =>
    intro s hs
    have hcomma : s.Leads source text s.rest := .rest s
    have hs' := hs.leads hcomma
    refine .check_bind ?_
    split
    · refine .advance_bind (.identifier_bind hs' fun htoken => ?_)
      refine .declare_bind (hs'.rest) ?_
      refine (ih (hs'.leads (leads_parameter hs'))).bind fun more t ht hmore => .pure ?_
      exact ((lays_parameter hs' htoken).append hs' (leads_parameter hs') ht hmore).before hs hcomma
        ((leads_parameter hs').trans ht)
    · exact .pure (.nil hs (.refl s))

theorem meets_parameters (hs : s.ReadsIn text) :
    Meets source text s (parameters source)
      (fun l t => Lays source text s t (l.map (·.name)) (l.map (·.toNode source))) := by
  refine .check_bind ?_
  split
  · exact .pure (.nil hs (.refl s))
  · refine .identifier_bind hs fun htoken => ?_
    refine .declare_bind (hs.rest) (.get_bind ?_)
    refine (meets_moreParameters _ (hs.leads (leads_parameter hs))).bind fun more t ht hmore =>
      .pure ?_
    exact (lays_parameter hs htoken).append hs (leads_parameter hs) ht hmore

theorem meets_body (n : Nat) : ∀ {s : ParserState}, s.ReadsIn text →
    Meets source text s (body source n) (fun l t =>
      Lays source text s t (l.flatMap Statement.names) (l.map (·.toNode source))) := by
  induction n with
  | zero => exact fun hs => .pure (.nil hs (.refl _))
  | succ n ih =>
    intro s hs
    refine .check_bind ?_
    split
    · exact .pure (.nil hs (.refl s))
    · refine .current_bind ?_
      split
      · exact .reject hs _
      · refine (meets_orSkip (meets_bodyStatement hs)).bind fun statement t ht hstatement =>
          (ih (hs.leads ht)).bind fun more u hu hmore => .pure ?_
        cases statement with
        | none => exact hmore.before hs ht hu
        | some statement => exact (hstatement statement rfl).append hs ht hu hmore

theorem meets_functionDefinition (hs : s.ReadsIn text) :
    Meets source text s (functionDefinition source)
      (fun i t => Lays source text s t i.names [i.toNode source]) := by
  have hname : s.Leads source text s.rest := .rest s
  have hopen : s.rest.Leads source text s.rest.rest := .rest s.rest
  have hfirst : s.rest.rest.Leads source text s.rest.rest.rest := .rest s.rest.rest
  have hs₁ := hs.leads hname
  have hs₂ := hs₁.leads hopen
  have hs₃ := hs₂.leads hfirst
  refine .advance_bind (.identifier_bind hs₁ fun htoken => .expect_bind hs₂ fun _ => ?_)
  refine (meets_parameters hs₃).bind fun parameters t ht hparameters => ?_
  have ht' := hs₃.leads ht
  have hbrace : t.Leads source text t.rest := .rest t
  have hbody : t.rest.Leads source text t.rest.rest := .rest t.rest
  refine .expect_bind ht' fun _ => .expect_bind (ht'.leads hbrace) fun _ => .get_bind ?_
  refine (meets_body _ ((ht'.leads hbrace).leads hbody)).bind fun body u hu hstatements => ?_
  have hbehind := ht.trans (hbrace.trans (hbody.trans hu))
  have hfront := hname.trans (hopen.trans (hfirst.trans hbehind))
  have hu' := hs.leads hfront
  refine .advance_bind (.declare_bind (hu'.rest)
    (.pure ?_))
  have hrow := (hparameters.append hs₃ ht (hbrace.trans (hbody.trans hu))
    (hstatements.before ht' (hbrace.trans hbody) hu)).before hs (hname.trans (hopen.trans hfirst))
      hbehind
  exact (Lays.declaring hs hfront hrow rfl htoken (hs.position_le hname)
    (Nat.le_trans (hs₁.stop_le_position (hfirst.trans hbehind)) hu'.next_bounds.1) rfl rfl).naming
      htoken

theorem meets_importDirective (hs : s.ReadsIn text) :
    Meets source text s importDirective
      (fun i t => Lays source text s t i.names [i.toNode source]) := by
  have hpath : s.Leads source text s.rest := .rest s
  have hclose := hpath.trans (.rest s.rest)
  refine .advance_bind (.current_bind ?_)
  split
  · refine .advance_bind (.expect_bind (hs.leads hclose) fun hmem => .pure ?_)
    exact (Lays.nil hs hclose).enclosed hs hclose hmem rfl rfl
  · exact .reject (hs.leads hpath) _

theorem meets_item (hs : s.ReadsIn text) :
    Meets source text s (item source)
      (fun i t => Lays source text s t i.names [i.toNode source]) := by
  refine .current_bind ?_
  repeat' split
  · exact meets_importDirective hs
  · exact (meets_variableDeclaration hs).bind fun _ _ _ h => .pure h
  · exact meets_functionDefinition hs
  · exact .reject hs _
  · exact (meets_assignmentOrExpression hs).bind fun _ _ _ h => .pure h

/-- The items of a unit stand in a row. -/
theorem meets_items (n : Nat) : ∀ {s : ParserState}, s.ReadsIn text →
    Meets source text s (items source n) (fun l t =>
      Lays source text s t (l.flatMap Item.names) (l.map (·.toNode source))) := by
  induction n with
  | zero => exact fun hs => .pure (.nil hs (.refl _))
  | succ n ih =>
    intro s hs
    refine .current_bind ?_
    split
    · exact .pure (.nil hs (.refl s))
    · refine (meets_orSkip (meets_item hs)).bind fun item t ht hitem =>
        (ih (hs.leads ht)).bind fun more u hu hmore => .pure ?_
      cases item with
      | none => exact hmore.before hs ht hu
      | some item => exact (hitem item rfl).append hs ht hu hmore

end Parser

/-! ## Units -/

/-- The names that a unit declares, and those of types. -/
def SourceFile.names (u : SourceFile) : List Name := u.items.flatMap Item.names

/-- The nodes of a tree are sound. -/
def IsSoundIn (source : String) (text : List Char) (d : Table Int Declaration) (n : Node) : Prop :=
  ∀ m ∈ n.preorder, IsSound source text d m

/-- What nodes refer to does not matter for whether they are sound. -/
theorem isSound_bare {source : String} {text : List Char} {d : Table Int Declaration} {n : Node} :
    IsSound source text d n.bare ↔ IsSound source text d n := by
  have hdeclared : IsDeclared text d n.bare ↔ IsDeclared text d n := by
    simp [IsDeclared, NodeLabel.bare]
  exact ⟨fun h => ⟨Node.isLaidOut_bare.1 h.laidOut, hdeclared.1 h.declared⟩,
    fun h => ⟨Node.isLaidOut_bare.2 h.laidOut, hdeclared.2 h.declared⟩⟩

/-- The nodes of a tree of the same shape are sound, too. -/
theorem IsSoundIn.of_bare {source : String} {text : List Char} {d : Table Int Declaration}
    {n n' : Node} (h : IsSoundIn source text d n) (hbare : n'.bare = n.bare) :
    IsSoundIn source text d n' := by
  intro m hm
  have hmem : m.bare ∈ n.preorder.map Node.bare := by
    rw [← Node.preorder_bare, ← hbare, Node.preorder_bare]
    exact List.mem_map_of_mem hm
  obtain ⟨k, hk, heq⟩ := List.mem_map.1 hmem
  exact isSound_bare.1 (heq ▸ isSound_bare.2 (h k hk))

/-- The tree of a unit is sound, and its handles are above one number up to another, each given once. -/
structure IsSoundTree (source : String) (text : List Char) (d : Table Int Declaration)
    (low high : Int) (root : Node) : Prop where
  sound : IsSoundIn source text d root
  nodup : (Node.declared [root]).Nodup
  given : ∀ h ∈ Node.declared [root], low < h ∧ h ≤ high

/-- A tree of the same shape is sound, too. -/
theorem IsSoundTree.of_bare {source : String} {text : List Char} {d : Table Int Declaration}
    {low high : Int} {root root' : Node} (h : IsSoundTree source text d low high root)
    (hbare : root'.bare = root.bare) : IsSoundTree source text d low high root' := by
  have hdeclared : Node.declared [root'] = Node.declared [root] := by
    rw [← Node.declared_bareAll [root'], ← Node.declared_bareAll [root]]
    exact congrArg (fun n => Node.declared [n]) hbare
  exact ⟨h.sound.of_bare hbare, hdeclared ▸ h.nodup, hdeclared ▸ h.given⟩

/-- The root of a unit stands over its items. -/
theorem isSoundTree_of_isRow {u : SourceFile} {text : List Char} {d : Table Int Declaration}
    {lo hi : Nat} {low high : Int} {names : List Name} (hlength : u.length = text.length)
    (hhi : hi ≤ text.length)
    (h : IsRow u.source text d lo hi low high names (u.items.map (·.toNode u.source))) :
    IsSoundTree u.source text d low high u.toUnit.root where
  sound n hn := by
    rw [Node.preorder_eq, List.mem_cons] at hn
    rcases hn with rfl | hn
    · have hline := h.inLine.widen (Int.natCast_nonneg lo) (Int.ofNat_le.2 hhi)
      rw [← hlength] at hline
      exact ⟨Node.isLaidOut_of_inLine rfl (Int.le_refl _) (Int.ofNat_le.2 (Nat.le_of_eq hlength))
        hline, fun _ => nofun⟩
    · exact h.sound n hn
  nodup := by
    rw [Node.declared_singleton]
    exact h.nodup
  given := by
    rw [Node.declared_singleton]
    exact h.given

/-- The state before a unit is read. -/
def ParserState.start (text : List Char) (draft : Draft) : ParserState :=
  ⟨tokens text, endToken text, draft⟩

theorem ParserState.readsIn_start (text : List Char) {draft : Draft} (hdraft : draft.IsCounted) :
    (start text draft).ReadsIn text := ⟨List.suffix_rfl, rfl, hdraft⟩

/-- A unit is read as its items are; if that fails, there are none. -/
theorem exists_parseFile_of_meets {source text : String} {draft : Draft}
    {Q : List Item → ParserState → Prop}
    (h : Parser.Meets source text.toList (.start text.toList draft)
      (Parser.items source ((tokens text.toList).length + 1)) Q) :
    ∃ items t, parseFile source text draft = (⟨source, text.toList.length, items⟩, t.draft) ∧
      (ParserState.start text.toList draft).Leads source text.toList t ∧ (Q items t ∨ items = []) := by
  unfold Parser.Meets ParserState.start at h
  unfold parseFile
  cases hresult : Parser.items source ((tokens text.toList).length + 1)
      { ahead := tokens text.toList, finish := endToken text.toList, draft } with
  | ok items t =>
    simp only [hresult] at h ⊢
    exact ⟨items, t, rfl, h.1, .inl h.2⟩
  | error e t =>
    simp only [hresult] at h ⊢
    exact ⟨[], t, rfl, h.1, .inr rfl⟩

/-- A unit is read: its tree is sound, and the draft grows. -/
theorem parseFile_sound (source text : String) {draft : Draft} (hdraft : draft.IsCounted) :
    IsSoundTree source text.toList (parseFile source text draft).2.declarations draft.count
        (parseFile source text draft).2.count (parseFile source text draft).1.toUnit.root ∧
      (∀ name ∈ (parseFile source text draft).1.names, name.IsTokenOf text.toList) ∧
      draft.Grows source text.toList (parseFile source text draft).2 := by
  have hs := ParserState.readsIn_start text.toList hdraft
  obtain ⟨items, t, hread, hlead, hrow⟩ := exists_parseFile_of_meets (Parser.meets_items _ hs)
  rw [hread]
  rcases hrow with hrow | rfl
  · exact ⟨isSoundTree_of_isRow (u := ⟨source, _, items⟩) rfl
      (hs.leads hlead).position_le_length hrow, hrow.named, hlead.draft⟩
  · exact ⟨isSoundTree_of_isRow (u := ⟨source, _, []⟩) rfl (Nat.le_refl _)
      (.nil (Int.le_refl _)), fun _ => nofun, hlead.draft⟩

end LanguageServer.Toy
