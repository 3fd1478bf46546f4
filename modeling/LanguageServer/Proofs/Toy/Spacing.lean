import LanguageServer.Proofs.Toy.Layout

/-!
# What stands behind names

Behind the name of an identifier or of a declaration there is always a mark of the language before
anything else is read.  So where a name ends no node starts, and what is inside a node that declares
something starts behind its name.

## Main definitions

* `Node.NameEnds` — where the name of a node ends.
* `IsSpaced` — where the names of trees end no node starts.
* `Spaces` — the trees that are read before a state are spaced, whatever is declared later.

## Main statements

* `Parser.spaces_items` — the items of a unit are spaced.
* `parseFile_spaced` — a unit is spaced.
-/

namespace LanguageServer

/-- The name of a node ends at an offset: an identifier is a name, and a node that declares something
holds the name at which the declaration stands. -/
def Node.NameEnds (d : Table Int Declaration) (n : Node) (e : Int) : Prop :=
  n.kind = "Identifier" ∧ e = n.location.stop ∨
    ∃ h x, n.label.declares = some h ∧ d.find? h = some x ∧ e = x.location.stop

namespace Toy

/-! ## Trees with names apart -/

/-- The nodes of some trees start between two offsets, and none starts where the name of one of them
ends.  What is inside a node starts behind its name.  Identifiers stand at names. -/
structure IsSpaced (source : String) (text : List Char) (d : Table Int Declaration) (lo hi : Int)
    (l : List Node) : Prop where
  le : lo ≤ hi
  starts : ∀ n ∈ Node.preorderAll l, lo ≤ n.location.start ∧ n.location.start < hi
  token : ∀ n ∈ Node.preorderAll l, n.kind = "Identifier" →
    ∃ t ∈ tokens text, t.kind = .name ∧ n.location = t.span.within source
  ends : ∀ n ∈ Node.preorderAll l, ∀ e, n.NameEnds d e → n.location.start < e ∧ e < hi
  apart : ∀ n ∈ Node.preorderAll l, ∀ e, n.NameEnds d e →
    ∀ k ∈ Node.preorderAll l, k.location.start ≠ e
  inside : ∀ n ∈ Node.preorderAll l, ∀ e, n.NameEnds d e →
    ∀ k ∈ Node.preorderAll n.children, e < k.location.start

section

variable {source : String} {text : List Char} {d : Table Int Declaration} {lo mid hi : Int}
  {l l' : List Node} {n : Node}

namespace IsSpaced

theorem nil (h : lo ≤ hi) : IsSpaced source text d lo hi [] where
  le := h
  starts := fun _ => nofun
  token := fun _ => nofun
  ends := fun _ => nofun
  apart := fun _ => nofun
  inside := fun _ => nofun

/-- What starts behind the names of some trees goes with them. -/
theorem append (h : IsSpaced source text d lo mid l) (h' : IsSpaced source text d mid hi l') :
    IsSpaced source text d lo hi (l ++ l') := by
  have hle := h.le
  have hle' := h'.le
  have hsplit {n : Node} (hn : n ∈ Node.preorderAll (l ++ l')) :
      n ∈ Node.preorderAll l ∨ n ∈ Node.preorderAll l' :=
    List.mem_append.1 (Node.preorderAll_append l l' ▸ hn)
  refine ⟨by omega, fun n hn => ?_, fun n hn => ?_, fun n hn e he => ?_, fun n hn e he k hk => ?_,
    fun n hn e he => ?_⟩
  · rcases hsplit hn with hn | hn
    · have := h.starts n hn
      omega
    · have := h'.starts n hn
      omega
  · exact (hsplit hn).elim (h.token n) (h'.token n)
  · rcases hsplit hn with hn | hn
    · have := h.ends n hn e he
      omega
    · exact h'.ends n hn e he
  · -- Names of the first trees end before `mid`, where those of the others start.
    rcases hsplit hn with hn | hn <;> rcases hsplit hk with hk | hk
    · exact h.apart n hn e he k hk
    · have := h.ends n hn e he
      have := h'.starts k hk
      omega
    · have := h'.ends n hn e he
      have := h'.starts n hn
      have := h.starts k hk
      omega
    · exact h'.apart n hn e he k hk
  · exact (hsplit hn).elim (fun hn => h.inside n hn e he) fun hn => h'.inside n hn e he

theorem widen {lo' hi' : Int} (h : IsSpaced source text d lo hi l) (hlo : lo' ≤ lo)
    (hhi : hi ≤ hi') : IsSpaced source text d lo' hi' l := by
  simpa using append (nil hlo) (h.append (nil hhi))

/-- A node stands over trees that start behind its name. -/
theorem above (h : IsSpaced source text d mid hi n.children) (hstart : n.location.start ≤ mid)
    (hhi : n.location.start < hi)
    (hname : ∀ e, n.NameEnds d e → n.location.start < e ∧ e < mid)
    (htoken : n.kind = "Identifier" →
      ∃ t ∈ tokens text, t.kind = .name ∧ n.location = t.span.within source) :
    IsSpaced source text d n.location.start hi [n] := by
  have hle := h.le
  have hsplit {m : Node} (hm : m ∈ Node.preorderAll [n]) :
      m = n ∨ m ∈ Node.preorderAll n.children := by
    rwa [Node.preorderAll, Node.preorderAll, List.append_nil, Node.preorder_eq, List.mem_cons] at hm
  refine ⟨by omega, fun m hm => ?_, fun m hm => ?_, fun m hm e he => ?_, fun m hm e he k hk => ?_,
    fun m hm e he k hk => ?_⟩
  · rcases hsplit hm with rfl | hm
    · omega
    · have := h.starts m hm
      omega
  · rcases hsplit hm with rfl | hm
    · exact htoken
    · exact h.token m hm
  · rcases hsplit hm with rfl | hm
    · have := hname e he
      omega
    · exact h.ends m hm e he
  · rcases hsplit hm with rfl | hm <;> rcases hsplit hk with rfl | hk
    · have := hname e he
      omega
    · have := hname e he
      have := h.starts k hk
      omega
    · have := h.ends m hm e he
      have := h.starts m hm
      omega
    · exact h.apart m hm e he k hk
  · rcases hsplit hm with rfl | hm
    · have := hname e he
      have := h.starts k hk
      omega
    · exact h.inside m hm e he k hk

end IsSpaced

/-- A node without a name ends none. -/
theorem not_nameEnds {e : Int} (hkind : n.kind ≠ "Identifier") (hnone : n.label.declares = none) :
    ¬ n.NameEnds d e := by
  rintro (⟨hidentifier, -⟩ | ⟨h, x, hdeclares, -⟩)
  · exact hkind hidentifier
  · rw [hnone] at hdeclares
    cases hdeclares

end

/-! ## Trees that are read -/

/-- The trees that are read before a state are spaced, whatever is declared later. -/
def Spaces (source : String) (text : List Char) (t : ParserState) (lo hi : Nat) (l : List Node) :
    Prop :=
  ∀ d, Keeps t.draft.declarations d → IsSpaced source text d lo hi l

section

variable {source : String} {text : List Char} {s t u : ParserState} {lo mid hi : Nat}
  {l l' : List Node} {n : Node}

/-- A token that is no end takes up characters. -/
theorem ParserState.ReadsIn.position_lt (hs : s.ReadsIn text) (hmem : s.next ∈ tokens text) :
    s.position < s.next.span.stop ∧ s.next.span.stop ≤ s.rest.position := by
  have hrest : s.rest.Leads "" text s.rest := .refl s.rest
  exact ⟨(isPieceOf_of_mem_tokens hmem).nonempty, hs.stop_le_position hrest⟩

/-- A name takes up characters. -/
theorem ParserState.position_lt_of_isTokenOf (h : s.next.toName.IsTokenOf text) :
    s.position < s.next.span.stop := by
  obtain ⟨token, hmem, -, htoken⟩ := h
  have hspan : token.span = s.next.span := congrArg Name.span htoken
  have hfilled := (isPieceOf_of_mem_tokens hmem).nonempty
  rwa [hspan] at hfilled

namespace Spaces

theorem nil (h : lo ≤ hi) : Spaces source text t lo hi [] := fun _ _ => .nil (Int.ofNat_le.2 h)

theorem append (ht : t.ReadsIn text) (htu : t.Leads source text u)
    (h : Spaces source text t lo mid l) (h' : Spaces source text u mid hi l') :
    Spaces source text u lo hi (l ++ l') :=
  fun d hd => (h d fun handle x hx => hd _ _ (htu.draft.keeps ht.counted handle x hx)).append (h' d hd)

theorem widen {lo' hi' : Nat} (ht : t.ReadsIn text) (htu : t.Leads source text u)
    (h : Spaces source text t lo hi l) (hlo : lo' ≤ lo) (hhi : hi ≤ hi') :
    Spaces source text u lo' hi' l := by
  have hwide : Spaces source text t lo' hi l := by
    simpa using append ht (.refl t) (nil hlo) h
  simpa using hwide.append ht htu (nil hhi)

/-- What is read behind a mark starts behind the place where the mark does. -/
theorem behindMark (hs : s.ReadsIn text) (hmem : s.next ∈ tokens text)
    (ht : s.rest.Leads source text t) (htu : t.Leads source text u)
    (h : Spaces source text t s.rest.position hi l) : Spaces source text u (s.position + 1) hi l := by
  have hposition := hs.position_lt hmem
  exact h.widen (hs.rest.leads ht) htu (by omega) (Nat.le_refl _)

/-- A node without a name stands over trees that start where it does, or behind. -/
theorem above (h : Spaces source text t lo hi n.children) (hstart : n.location.start = lo)
    (hhi : lo < hi) (hkind : n.kind ≠ "Identifier") (hnone : n.label.declares = none) :
    Spaces source text t lo hi [n] := by
  intro d hd
  rw [← hstart]
  refine (h d hd).above (Int.le_of_eq hstart) ?_ (fun e he => ?_) fun hidentifier => ?_
  · rw [hstart]
    exact Int.ofNat_lt.2 hhi
  · exact absurd he (not_nameEnds hkind hnone)
  · exact absurd hidentifier hkind

/-- A node of one token. -/
theorem leaf (hs : s.ReadsIn text) (hmem : s.next ∈ tokens text) {label : NodeLabel}
    (hlocation : label.location = s.next.span.within source) (hnone : label.declares = none)
    (hkind : label.kind = "Identifier" → s.next.kind = .name) :
    Spaces source text s.rest s.position (s.rest.position + 1) [{ label }] := by
  intro d _
  have hposition := hs.position_lt hmem
  have hstart : (⟨label, []⟩ : Node).location.start = s.position := by
    rw [Node.location, hlocation]
    rfl
  have hstop : (⟨label, []⟩ : Node).location.stop = s.next.span.stop := by
    rw [Node.location, hlocation]
    rfl
  rw [← hstart]
  refine (IsSpaced.nil (Int.le_refl _)).above ?_ ?_ (fun e he => ?_) fun hidentifier => ?_
  · omega
  · omega
  · rcases he with ⟨-, rfl⟩ | ⟨handle, x, hdeclares, -⟩
    · omega
    · rw [hnone] at hdeclares
      cases hdeclares
  · exact ⟨s.next, hmem, hkind hidentifier, hlocation⟩

/-- A node that is declared stands over trees that start behind its name. -/
theorem declaring (ht : t.ReadsIn text) (h : Spaces source text t mid hi n.children) {name : Name}
    (hstart : n.location.start = lo) (hfront : lo < name.span.stop) (hback : name.span.stop < mid)
    (hkind : n.kind ≠ "Identifier") (hdeclares : n.label.declares = some t.draft.nextHandle) :
    Spaces source text (t.declare source name) lo hi [n] := by
  intro d hd
  have hlead : t.Leads source text (t.declare source name) := ht.leads_declare name
  have hgrows := hlead.draft.keeps ht.counted
  have hchildren := h d fun handle x hx => hd _ _ (hgrows handle x hx)
  have hle := hchildren.le
  have hfind : d.find? t.draft.nextHandle =
      some (declarationOf source name t.draft.nextHandle) := by
    refine hd _ _ ?_
    simp [ParserState.declare, Draft.declare]
  rw [← hstart]
  refine hchildren.above ?_ ?_ (fun e he => ?_) fun hidentifier => ?_
  · omega
  · omega
  · rcases he with ⟨hidentifier, -⟩ | ⟨handle, x, hhandle, hx, rfl⟩
    · exact absurd hidentifier hkind
    · obtain rfl := Option.some.inj (hdeclares.symm.trans hhandle)
      obtain rfl := Option.some.inj (hfind.symm.trans hx)
      simp only [declarationOf, Span.within]
      omega
  · exact absurd hidentifier hkind

end Spaces

end

/-! ## Expressions -/

namespace Parser

variable {source : String} {text : List Char} {s : ParserState}

/-- An expression that is read from a state to another is spaced, and starts at the next token. -/
def ReadsSpaced (source : String) (text : List Char) (s : ParserState) (e : Expr) (t : ParserState) :
    Prop :=
  e.span.start = s.position ∧ Spaces source text t s.position (t.position + 1) [e.toNode source]

/-- The arguments of a call stand between its parentheses. -/
theorem readsSpaced_call (hs : s.ReadsIn text) (hmem : s.next ∈ tokens text)
    (hkind : s.next.kind = .name) (hopen : s.rest.next ∈ tokens text) {t : ParserState}
    {l : List Expr} (ht : s.rest.rest.Leads source text t)
    (harguments : Spaces source text t s.rest.rest.position (t.position + 1) (Expr.toNodes source l))
    (hclose : t.next ∈ tokens text) :
    ReadsSpaced source text s (.call ⟨s.next.toName, none⟩ l ⟨s.next.span.start, t.next.span.stop⟩)
      t.rest := by
  have hrest := hs.rest
  have hrest' := hrest.rest
  have ht' := hrest'.leads ht
  have hbehind := (ParserState.Leads.rest s.rest).trans ht
  have hposition := hrest.position_lt hopen
  have hfront := hs.position_lt hmem
  have hend := ht'.position_lt hclose
  have hle := hrest'.position_le ht
  have hcallee : Spaces source text s.rest s.position (s.rest.position + 1)
      [(⟨s.next.toName, none⟩ : Use).toNode source .read] := .leaf hs hmem rfl rfl fun _ => hkind
  -- The name may end where the parenthesis starts, but the arguments start behind that.
  have hrow := (hcallee.widen hrest (.refl _) (Nat.le_refl _) (by omega)).append hrest hbehind
    harguments
  refine ⟨rfl, Spaces.above (hrow.widen ht' (.rest t) (Nat.le_refl _) ?_) rfl ?_ ?_ rfl⟩
  · omega
  · omega
  · simp [Expr.toNode, Node.kind]

/-- A sum stands over its operands. -/
theorem readsSpaced_sum (hs : s.ReadsIn text) {t u : ParserState} (ht : s.Leads source text t)
    {first : Expr} {rest : List Expr} (hfirst : ReadsSpaced source text s first t)
    (hu : t.Leads source text u)
    (hmore : Spaces source text u (t.position + 1) (u.position + 1) (Expr.toNodes source rest)) :
    ReadsSpaced source text s (.sum (first :: rest) (spanOf first rest)) u := by
  have ht' := hs.leads ht
  have hfront := hs.position_le ht
  have hle := ht'.position_le hu
  refine ⟨hfirst.1, Spaces.above (hfirst.2.append ht' hu hmore) ?_ (by omega) ?_ rfl⟩
  · exact congrArg Nat.cast hfirst.1
  · simp [Expr.toNode, Node.kind]

/-- Expressions are spaced. -/
theorem spaces_expressions : ExpressionCases source text (ReadsSpaced source text)
    (fun s l t =>
      Spaces source text t (s.position + 1) (t.position + 1) (Expr.toNodes source l))
    (fun s l t => Spaces source text t s.position (t.position + 1) (Expr.toNodes source l)) where
  number hs hmem := ⟨rfl, .leaf hs hmem rfl rfl (by simp)⟩
  string hs hmem := ⟨rfl, .leaf hs hmem rfl rfl (by simp)⟩
  use hs hmem hkind := ⟨rfl, .leaf hs hmem rfl rfl fun _ => hkind⟩
  call hs hmem hkind hopen ht harguments hclose :=
    readsSpaced_call hs hmem hkind hopen ht harguments hclose
  alone hs ht hfirst hu := by
    have hle := (hs.leads ht).position_le hu
    exact ⟨hfirst.1, hfirst.2.widen (hs.leads ht) hu (Nat.le_refl _) (by omega)⟩
  sum hs ht hfirst hu hmore := readsSpaced_sum hs ht hfirst hu hmore
  none _ := .nil (Nat.le_refl _)
  more hs hmem ht hfirst hu hmore :=
    (hfirst.2.append (hs.rest.leads ht) hu hmore).behindMark hs hmem (ht.trans hu) (.refl _)
  noArguments _ := .nil (Nat.le_succ _)
  arguments hs ht hfirst hu hmore := hfirst.2.append (hs.leads ht) hu hmore

theorem spaces_anExpression (hs : s.ReadsIn text) :
    Meets source text s anExpression (ReadsSpaced source text s) :=
  .get_bind (spaces_expressions.meets _ hs).2.1

/-! ## Statements -/

theorem spaces_firstValue (hs : s.ReadsIn text) :
    Meets source text s firstValue (fun v t =>
      Spaces source text t (s.position + 1) (t.position + 1) (v.map (·.toNode source)).toList) := by
  refine .check_bind ?_
  split
  · next hmark =>
    exact .advance_bind ((spaces_anExpression hs.rest).bind fun value t ht hvalue =>
      .pure (hvalue.2.behindMark hs (next_mem_of_is hs hmark) ht (.refl t)))
  · exact .pure (.nil (Nat.le_refl _))

theorem spaces_variableDeclaration (hs : s.ReadsIn text) :
    Meets source text s (variableDeclaration source)
      (fun st t => Spaces source text t s.position t.position [st.toNode source]) := by
  have hname : s.Leads source text s.rest := .rest s
  have hs₁ := hs.rest
  have hs₂ := hs₁.rest
  refine .advance_bind (.identifier_bind hs₁ fun htoken => ?_)
  refine (meets_typeName hs₂).bind fun typeName t ht _ => ?_
  have ht' := hs₂.leads ht
  refine (spaces_firstValue ht').bind fun value u hu hvalue => ?_
  have hu' := ht'.leads hu
  refine .expect_bind hu' fun hclose => .declare_bind hu'.rest (.pure ?_)
  -- The name ends before the equals sign starts, and the value starts behind that.
  have hspan := ParserState.position_lt_of_isTokenOf htoken
  have hfront := hs.position_le hname
  have hstop := hs₁.stop_le_position ht
  have hle := ht'.position_le hu
  have hend := hu'.position_lt hclose
  refine (hvalue.widen hu' (.rest u) (Nat.le_refl _) ?_).declaring hu'.rest rfl ?_ ?_ ?_ rfl
  · exact Nat.lt_of_lt_of_le hend.1 hend.2
  · exact Nat.lt_of_le_of_lt hfront hspan
  · exact Nat.lt_succ_of_le hstop
  · simp [Statement.toNode, Node.kind]

theorem spaces_assignment (hs : s.ReadsIn text) (hidentifier : s.next.isIdentifier = true) :
    Meets source text s assignment
      (fun st t => Spaces source text t s.position t.position [st.toNode source]) := by
  obtain ⟨hmem, hkind⟩ := next_mem_of_isIdentifier hs hidentifier
  have hs₁ := hs.rest
  have hs₂ := hs₁.rest
  refine .advance_bind (.expect_bind hs₁ fun hequals => ?_)
  refine (spaces_anExpression hs₂).bind fun value t ht hvalue => ?_
  have ht' := hs₂.leads ht
  refine .expect_bind ht' fun hclose => .pure ?_
  have hfront := hs.position_lt hmem
  have hmark := hs₁.position_lt hequals
  have hle := hs₂.position_le ht
  have hend := ht'.position_lt hclose
  have htarget : Spaces source text s.rest s.position (s.rest.position + 1)
      [(⟨s.next.toName, none⟩ : Use).toNode source .write] := .leaf hs hmem rfl rfl fun _ => hkind
  have hchildren := (htarget.widen hs₁ (.rest _) (Nat.le_refl _) (by omega)).append hs₂ ht hvalue.2
  refine Spaces.above (hchildren.widen ht' (.rest t) (Nat.le_refl _) ?_) rfl ?_ ?_ rfl
  · exact Nat.lt_of_lt_of_le hend.1 hend.2
  · show s.position < t.rest.position
    omega
  · simp [Statement.toNode, Node.kind]

theorem spaces_giveBack (hs : s.ReadsIn text) (hmem : s.next ∈ tokens text) :
    Meets source text s giveBack
      (fun st t => Spaces source text t s.position t.position [st.toNode source]) := by
  have hs₁ := hs.rest
  refine .advance_bind (.bind (Q := fun v t => Spaces source text t s.rest.position
    (t.position + 1) (v.map (·.toNode source)).toList) (.check_bind ?_) ?_)
  · split
    · exact .pure (.nil (Nat.le_succ _))
    · exact (spaces_anExpression hs₁).bind fun value t _ hvalue => .pure hvalue.2
  · intro value t ht hvalue
    have ht' := hs₁.leads ht
    refine .expect_bind ht' fun hclose => .pure ?_
    have hfront := hs.position_lt hmem
    have hle := hs₁.position_le ht
    have hend := ht'.position_lt hclose
    refine Spaces.above (hvalue.widen ht' (.rest t) ?_ ?_) rfl ?_ ?_ rfl
    · show s.position ≤ s.rest.position
      omega
    · exact Nat.lt_of_lt_of_le hend.1 hend.2
    · show s.position < t.rest.position
      omega
    · simp [Statement.toNode, Node.kind]

theorem spaces_expressionStatement (hs : s.ReadsIn text) :
    Meets source text s expressionStatement
      (fun st t => Spaces source text t s.position t.position [st.toNode source]) := by
  refine (spaces_anExpression hs).bind fun value t ht hvalue => ?_
  have ht' := hs.leads ht
  refine .expect_bind ht' fun hclose => .pure ?_
  have hle := hs.position_le ht
  have hend := ht'.position_lt hclose
  refine Spaces.above (hvalue.2.widen ht' (.rest t) (Nat.le_refl _) ?_) ?_ ?_ ?_ rfl
  · exact Nat.lt_of_lt_of_le hend.1 hend.2
  · exact congrArg Nat.cast hvalue.1
  · show s.position < t.rest.position
    omega
  · simp [Statement.toNode, Node.kind]

theorem spaces_assignmentOrExpression (hs : s.ReadsIn text) :
    Meets source text s assignmentOrExpression
      (fun st t => Spaces source text t s.position t.position [st.toNode source]) := by
  refine .current_bind (.following_bind fun token => ?_)
  split
  · next hequals => exact spaces_assignment hs (Bool.and_eq_true_iff.1 hequals).1
  · exact spaces_expressionStatement hs

theorem spaces_bodyStatement (hs : s.ReadsIn text) :
    Meets source text s (bodyStatement source)
      (fun st t => Spaces source text t s.position t.position [st.toNode source]) := by
  refine .current_bind ?_
  split
  · exact .reject hs _
  split
  · exact spaces_variableDeclaration hs
  split
  · exact .reject hs _
  split
  · next hreturn => exact spaces_giveBack hs (next_mem_of_is hs hreturn)
  · exact spaces_assignmentOrExpression hs

/-! ## Functions and units -/

/-- A parameter is declared at its only token. -/
theorem spaces_parameter (hs : s.ReadsIn text) (htoken : s.next.toName.IsTokenOf text) :
    Spaces source text (s.rest.declare source s.next.toName) s.position (s.rest.position + 1)
      [(⟨s.next.toName, s.rest.draft.nextHandle⟩ : Parameter).toNode source] := by
  have hrest : s.rest.Leads source text s.rest := .refl s.rest
  refine (Spaces.nil (Nat.le_refl (s.rest.position + 1))).declaring hs.rest rfl ?_ ?_ ?_ rfl
  · exact ParserState.position_lt_of_isTokenOf htoken
  · exact Nat.lt_succ_of_le (hs.stop_le_position hrest)
  · simp [Parameter.toNode, Node.kind]

theorem spaces_moreParameters (n : Nat) : ∀ {s : ParserState}, s.ReadsIn text →
    Meets source text s (moreParameters source n) (fun l t =>
      Spaces source text t (s.position + 1) (t.position + 1) (l.map (·.toNode source))) := by
  induction n with
  | zero => exact fun _ => .pure (.nil (Nat.le_refl _))
  | succ n ih =>
    intro s hs
    refine .check_bind ?_
    split
    · next hcomma =>
      refine .advance_bind (.identifier_bind hs.rest fun htoken => .declare_bind hs.rest.rest ?_)
      have hlead : s.rest.Leads source text (s.rest.rest.declare source s.rest.next.toName) :=
        leads_parameter hs.rest
      have hs' := hs.rest.leads hlead
      refine (ih hs').bind fun more t ht hmore => .pure ?_
      exact ((spaces_parameter hs.rest htoken).append hs' ht hmore).behindMark hs
        (next_mem_of_is hs hcomma) (hlead.trans ht) (.refl t)
    · exact .pure (.nil (Nat.le_refl _))

theorem spaces_parameters (hs : s.ReadsIn text) :
    Meets source text s (parameters source) (fun l t =>
      Spaces source text t s.position (t.position + 1) (l.map (·.toNode source))) := by
  refine .check_bind ?_
  split
  · exact .pure (.nil (Nat.le_succ _))
  · refine .identifier_bind hs fun htoken => .declare_bind hs.rest (.get_bind ?_)
    have hlead : s.Leads source text (s.rest.declare source s.next.toName) := leads_parameter hs
    have hs' := hs.leads hlead
    refine (spaces_moreParameters _ hs').bind fun more t ht hmore => .pure ?_
    exact (spaces_parameter hs htoken).append hs' ht hmore

theorem spaces_body (n : Nat) : ∀ {s : ParserState}, s.ReadsIn text →
    Meets source text s (body source n) (fun l t =>
      Spaces source text t s.position t.position (l.map (·.toNode source))) := by
  induction n with
  | zero => exact fun _ => .pure (.nil (Nat.le_refl _))
  | succ n ih =>
    intro s hs
    refine .check_bind ?_
    split
    · exact .pure (.nil (Nat.le_refl _))
    · refine .current_bind ?_
      split
      · exact .reject hs _
      · refine (meets_orSkip (spaces_bodyStatement hs)).bind fun statement t ht hstatement =>
          (ih (hs.leads ht)).bind fun more u hu hmore => .pure ?_
        cases statement with
        | none =>
          exact hmore.widen ((hs.leads ht).leads hu) (.refl u) (hs.position_le ht) (Nat.le_refl _)
        | some statement => exact (hstatement statement rfl).append (hs.leads ht) hu hmore

theorem spaces_functionDefinition (hs : s.ReadsIn text) :
    Meets source text s (functionDefinition source)
      (fun i t => Spaces source text t s.position t.position [i.toNode source]) := by
  have hname : s.Leads source text s.rest := .rest s
  have hopen : s.rest.rest.Leads source text s.rest.rest := .refl _
  have hs₁ := hs.rest
  have hs₂ := hs₁.rest
  have hs₃ := hs₂.rest
  refine .advance_bind (.identifier_bind hs₁ fun htoken => .expect_bind hs₂ fun hbracket => ?_)
  refine (spaces_parameters hs₃).bind fun parameters t ht hparameters => ?_
  have ht' := hs₃.leads ht
  have ht₁ := ht'.rest
  refine .expect_bind ht' fun hclose => .expect_bind ht₁ fun _ => .get_bind ?_
  refine (spaces_body _ ht₁.rest).bind fun body u hu hbody => ?_
  have hu' := ht₁.rest.leads hu
  refine .advance_bind (.declare_bind hu'.rest (.pure ?_))
  -- Between the name and the first parameter stands the parenthesis.
  have hspan := ParserState.position_lt_of_isTokenOf htoken
  have hfront := hs.position_le hname
  have hstop := hs₁.stop_le_position hopen
  have hmark := hs₂.position_lt hbracket
  have hend := ht'.position_lt hclose
  have hbrace : t.rest.Leads source text t.rest.rest := .rest t.rest
  have hbehind : u.Leads source text u.rest := .rest u
  have hle := ht₁.position_le hbrace
  have hle' := hu'.position_le hbehind
  have hlist := hparameters.widen ht' ((ParserState.Leads.rest t).trans hbrace) (Nat.le_refl _)
    (show t.position + 1 ≤ t.rest.rest.position by omega)
  have hrow := (hlist.append ht₁.rest hu hbody).widen hu' hbehind (Nat.le_refl _) hle'
  refine Spaces.declaring hu'.rest (n := (Item.function _).toNode source) hrow rfl ?_ ?_ ?_ rfl
  · exact Nat.lt_of_le_of_lt hfront hspan
  · exact Nat.lt_of_le_of_lt hstop (Nat.lt_of_lt_of_le hmark.1 hmark.2)
  · simp [Item.toNode, Node.kind]

theorem spaces_importDirective (hs : s.ReadsIn text) (hmem : s.next ∈ tokens text) :
    Meets source text s importDirective
      (fun i t => Spaces source text t s.position t.position [i.toNode source]) := by
  have hs₁ := hs.rest
  refine .advance_bind (.current_bind ?_)
  split
  · refine .advance_bind (.expect_bind hs₁.rest fun hclose => .pure ?_)
    have hfront := hs.position_lt hmem
    have hpath : s.rest.Leads source text s.rest.rest := .rest s.rest
    have hle := hs₁.position_le hpath
    have hend := hs₁.rest.position_lt hclose
    have hlt : s.position < s.rest.rest.rest.position := by omega
    refine Spaces.above (Spaces.nil (Nat.le_of_lt hlt)) rfl hlt ?_ rfl
    simp [Item.toNode, Node.kind]
  · exact .reject hs₁ _

theorem spaces_item (hs : s.ReadsIn text) :
    Meets source text s (item source)
      (fun i t => Spaces source text t s.position t.position [i.toNode source]) := by
  refine .current_bind ?_
  split
  · next himport => exact spaces_importDirective hs (next_mem_of_is hs himport)
  split
  · exact (spaces_variableDeclaration hs).bind fun _ _ _ h => .pure h
  split
  · exact spaces_functionDefinition hs
  split
  · exact .reject hs _
  · exact (spaces_assignmentOrExpression hs).bind fun _ _ _ h => .pure h

/-- The items of a unit are spaced. -/
theorem spaces_items (n : Nat) : ∀ {s : ParserState}, s.ReadsIn text →
    Meets source text s (items source n) (fun l t =>
      Spaces source text t s.position t.position (l.map (·.toNode source))) := by
  induction n with
  | zero => exact fun _ => .pure (.nil (Nat.le_refl _))
  | succ n ih =>
    intro s hs
    refine .current_bind ?_
    split
    · exact .pure (.nil (Nat.le_refl _))
    · refine (meets_orSkip (spaces_item hs)).bind fun item t ht hitem =>
        (ih (hs.leads ht)).bind fun more u hu hmore => .pure ?_
      cases item with
      | none =>
        exact hmore.widen ((hs.leads ht).leads hu) (.refl u) (hs.position_le ht) (Nat.le_refl _)
      | some item => exact (hitem item rfl).append (hs.leads ht) hu hmore

end Parser

/-! ## Units -/

/-- The root of a unit stands over its items. -/
theorem isSpaced_toUnit {u : SourceFile} {text : List Char} {d : Table Int Declaration} {lo hi : Nat}
    (h : IsSpaced u.source text d lo hi (u.items.map (·.toNode u.source)))
    (hhi : hi ≤ text.length) :
    IsSpaced u.source text d 0 (text.length + 1) [u.toUnit.root] := by
  have hroot : u.toUnit.root.location.start = 0 := rfl
  rw [← hroot]
  refine (h.widen (Int.natCast_nonneg lo) (by omega)).above ?_ ?_ (fun e he => ?_) fun hkind => ?_
  · exact Int.le_refl _
  · rw [hroot]
    omega
  · exact absurd he (not_nameEnds (by simp [SourceFile.toUnit, Node.kind]) rfl)
  · simp [SourceFile.toUnit, Node.kind] at hkind

/-- A unit is read: where its names end no node starts. -/
theorem parseFile_spaced (source text : String) {draft : Draft} (hdraft : draft.IsCounted) :
    IsSpaced source text.toList (parseFile source text draft).2.declarations 0
      (text.toList.length + 1) [(parseFile source text draft).1.toUnit.root] := by
  have hs := ParserState.readsIn_start text.toList hdraft
  obtain ⟨items, t, hread, hlead, hspaces⟩ := exists_parseFile_of_meets (Parser.spaces_items _ hs)
  rw [hread]
  rcases hspaces with hspaces | rfl
  · exact isSpaced_toUnit (u := ⟨source, _, items⟩) (hspaces _ fun _ _ hx => hx)
      (hs.leads hlead).position_le_length
  · exact isSpaced_toUnit (u := ⟨source, _, []⟩) (.nil (Int.le_refl ((0 : Nat) : Int)))
      (Nat.zero_le _)

end Toy

end LanguageServer
