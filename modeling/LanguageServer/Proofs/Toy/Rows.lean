import LanguageServer.Proofs.Compiler.Layout
import LanguageServer.Proofs.Toy.Reading
import LanguageServer.Proofs.Toy.Tokens

/-!
# Rows of trees

Reading takes tokens from the front, so what is read from one state to another stands between
their next tokens.  The trees that are read one after the other stand in a row: one behind the
other, each laid out inside, with names at their declarations and handles of their own.

## Main definitions

* `IsSound` — a node is laid out, and what it declares is declared at a name inside it.
* `IsRow` — trees stand in line, are sound, and declare handles of their own.
* `ParserState.Leads` — what reading does to its state.
* `Lays` — the trees that are read from one state to another stand in a row.

## Main statements

* `Lays.append` — rows that are read one after the other are one row.
* `Lays.above` — a node that ends with a token stands over the row before this token.
-/

namespace LanguageServer

/-! ## Places -/

/-- A place lies in the text of a source. -/
structure SourceLocation.LiesIn (source : String) (length : Nat) (l : SourceLocation) : Prop where
  source : l.source = source
  start : 0 ≤ l.start
  ordered : l.start ≤ l.stop
  stop : l.stop ≤ length

/-- A finding has a place, and it and the places that belong to it are of a kind. -/
structure Finding.IsPlaced (P : SourceLocation → Prop) (f : Finding) : Prop where
  location : ∃ l, f.location = some l ∧ P l
  related : ∀ r ∈ f.related, P r.location

theorem Finding.IsPlaced.mono {P Q : SourceLocation → Prop} {f : Finding} (h : f.IsPlaced P)
    (hPQ : ∀ l, P l → Q l) : f.IsPlaced Q where
  location := h.location.imp fun _ hl => ⟨hl.1, hPQ _ hl.2⟩
  related r hr := hPQ _ (h.related r hr)

namespace Toy

/-- A name stands in the text as a token. -/
def Name.IsTokenOf (text : List Char) (name : Name) : Prop :=
  ∃ t ∈ tokens text, t.kind = .name ∧ t.toName = name

/-- What a node declares is declared at a name inside it, which is also the name of the node. -/
def IsDeclared (text : List Char) (declarations : Table Int Declaration) (n : Node) : Prop :=
  ∀ h, n.label.declares = some h → ∃ name : Name, name.IsTokenOf text ∧
    n.label.name = some name.text ∧
    declarations.find? h = some (declarationOf n.location.source name h) ∧
    n.location.start ≤ name.span.start ∧ name.span.stop ≤ n.location.stop

/-- A node is laid out, and what it declares is declared at a name inside it. -/
structure IsSound (source : String) (text : List Char) (declarations : Table Int Declaration)
    (n : Node) : Prop where
  laidOut : n.IsLaidOut source text.length
  declared : IsDeclared text declarations n

/-- A token is one of a text, or its end. -/
def Token.IsIn (text : List Char) (t : Token) : Prop := t ∈ tokens text ∨ t = endToken text

theorem Token.IsIn.stop {text : List Char} {t : Token} (h : t.IsIn text) :
    t.span.start ≤ t.span.stop ∧ t.span.stop ≤ text.length := by
  rcases h with hmem | rfl
  · have hpiece := isPieceOf_of_mem_tokens hmem
    exact ⟨Nat.le_of_lt hpiece.nonempty, hpiece.stop⟩
  · exact ⟨Nat.le_refl _, Nat.le_refl _⟩

/-- The place of a token lies in its text. -/
theorem Token.IsIn.liesIn {text : List Char} {t : Token} (h : t.IsIn text) (source : String) :
    (t.span.within source).LiesIn source text.length :=
  ⟨rfl, Int.natCast_nonneg _, Int.ofNat_le.2 h.stop.1, Int.ofNat_le.2 h.stop.2⟩

/-- Declarations stay when others are added. -/
def Keeps (d d' : Table Int Declaration) : Prop := ∀ h x, d.find? h = some x → d'.find? h = some x

/-- Trees stand in line between two offsets and are sound; they declare handles above one number up
to another, each once.  The names that go with them stand in the text. -/
structure IsRow (source : String) (text : List Char) (d : Table Int Declaration) (lo hi : Int)
    (low high : Int) (names : List Name) (l : List Node) : Prop where
  sound : ∀ n ∈ Node.preorderAll l, IsSound source text d n
  inLine : Node.InLine lo hi l
  nodup : (Node.declared l).Nodup
  given : ∀ h ∈ Node.declared l, low < h ∧ h ≤ high
  named : ∀ name ∈ names, name.IsTokenOf text

section

variable {source : String} {text : List Char} {d d' : Table Int Declaration}
  {lo mid hi low middle high : Int} {names names' : List Name} {l l' : List Node} {n : Node}

theorem IsSound.mono (h : IsSound source text d n) (hkeeps : Keeps d d') :
    IsSound source text d' n where
  laidOut := h.laidOut
  declared handle hdeclares := by
    obtain ⟨name, htoken, hname, hfind, hinside⟩ := h.declared handle hdeclares
    exact ⟨name, htoken, hname, hkeeps _ _ hfind, hinside⟩

namespace IsRow

theorem nil (h : lo ≤ hi) : IsRow source text d lo hi low high [] [] where
  sound := fun _ => nofun
  inLine := .nil h
  nodup := .nil
  given := fun _ => nofun
  named := fun _ => nofun

/-- What is read later stands behind, and declares handles that are not given yet. -/
theorem append (h : IsRow source text d lo mid low middle names l)
    (h' : IsRow source text d' mid hi middle high names' l') (hkeeps : Keeps d d')
    (hlow : low ≤ middle) (hhigh : middle ≤ high) :
    IsRow source text d' lo hi low high (names ++ names') (l ++ l') where
  sound m hm := by
    rw [Node.preorderAll_append] at hm
    exact (List.mem_append.1 hm).elim (fun hm => (h.sound m hm).mono hkeeps) (h'.sound m)
  inLine := h.inLine.append h'.inLine
  nodup := by
    rw [Node.declared_append]
    refine List.nodup_append.2 ⟨h.nodup, h'.nodup, fun x hx y hy => ?_⟩
    have := h.given x hx
    have := h'.given y hy
    omega
  given x hx := by
    rw [Node.declared_append] at hx
    rcases List.mem_append.1 hx with hx | hx
    · have := h.given x hx
      omega
    · have := h'.given x hx
      omega
  named name hname := (List.mem_append.1 hname).elim (h.named name) (h'.named name)

theorem naming {name : Name} (hname : name.IsTokenOf text)
    (h : IsRow source text d lo hi low high names l) :
    IsRow source text d lo hi low high (name :: names) l :=
  { h with
    named := fun other hother => by
      rcases List.mem_cons.1 hother with rfl | hother
      · exact hname
      · exact h.named other hother }

/-- A node stands over the trees inside it.  If it declares something, then after them. -/
theorem above (h : IsRow source text d n.location.start n.location.stop low middle names n.children)
    (hsource : n.location.source = source) (hspan : n.location.start < n.location.stop)
    (hzero : 0 ≤ lo) (hlo : lo ≤ n.location.start) (hhi : n.location.stop ≤ hi)
    (hlength : hi ≤ text.length) (hkeeps : Keeps d d') (hhigh : middle ≤ high)
    (hdeclared : IsDeclared text d' n)
    (hgiven : ∀ handle, n.label.declares = some handle → middle < handle ∧ handle ≤ high)
    (hlow : low ≤ middle) : IsRow source text d' lo hi low high names [n] where
  sound m hm := by
    simp only [Node.preorderAll, List.append_nil, Node.preorder_eq, List.mem_cons] at hm
    rcases hm with rfl | hm
    · exact ⟨Node.isLaidOut_of_inLine hsource (by omega) (by omega) h.inLine, hdeclared⟩
    · exact (h.sound m hm).mono hkeeps
  inLine := .single hlo hspan hhi
  nodup := by
    rw [Node.declared_singleton]
    refine List.nodup_append.2 ⟨?_, h.nodup, fun x hx y hy => ?_⟩
    · cases n.label.declares <;> simp
    · have := hgiven x (Option.mem_toList.1 hx)
      have := h.given y hy
      omega
  given x hx := by
    rw [Node.declared_singleton] at hx
    rcases List.mem_append.1 hx with hx | hx
    · have := hgiven x (Option.mem_toList.1 hx)
      omega
    · have := h.given x hx
      omega
  named := h.named

end IsRow

end

/-! ## Names -/

/-- The name that a statement declares, and the name of its type. -/
def Statement.names : Statement → List Name
  | .variable v => v.name :: v.typeName.toList
  | _ => []

/-- The names that an item declares, and those of types. -/
def Item.names : Item → List Name
  | .importing _ _ _ => []
  | .function f => f.name :: (f.parameters.map (·.name) ++ f.body.flatMap Statement.names)
  | .statement s => s.names

/-! ## States of reading -/

/-- The next token. -/
def ParserState.next (s : ParserState) : Token := s.ahead.headD s.finish

/-- The offset of the next token. -/
def ParserState.position (s : ParserState) : Nat := s.next.span.start

/-- The state behind the next token. -/
def ParserState.rest (s : ParserState) : ParserState := { s with ahead := s.ahead.tail }

/-- The state with one more declaration. -/
def ParserState.declare (s : ParserState) (source : String) (name : Name) : ParserState :=
  { s with draft := s.draft.declare source name }

/-- The tokens of a text are read, and handles are counted. -/
structure ParserState.ReadsIn (text : List Char) (s : ParserState) : Prop where
  ahead : s.ahead <:+ tokens text
  finish : s.finish = endToken text
  counted : s.draft.IsCounted

/-- What reading adds to a draft: declarations, and syntax errors at tokens of the text. -/
structure Draft.Grows (source : String) (text : List Char) (d d' : Draft) : Prop where
  counted : d.IsCounted → d'.IsCounted
  count : d.count ≤ d'.count
  keeps : d.IsCounted → Keeps d.declarations d'.declarations
  found : ∀ f ∈ d'.findings, f ∈ d.findings ∨ ∃ e : SyntaxError, f = e.finding source ∧
    e.token.IsIn text

/-- What reading does to its state: tokens are taken, and the draft grows. -/
structure ParserState.Leads (source : String) (text : List Char) (s t : ParserState) : Prop where
  ahead : t.ahead <:+ s.ahead
  finish : t.finish = s.finish
  draft : s.draft.Grows source text t.draft

section

variable {source : String} {text : List Char} {d d' d'' : Draft} {s t u : ParserState}

namespace Draft.Grows

theorem refl (d : Draft) : d.Grows source text d where
  counted h := h
  count := Int.le_refl _
  keeps _ _ _ h := h
  found _ h := .inl h

theorem trans (h : d.Grows source text d') (h' : d'.Grows source text d'') :
    d.Grows source text d'' where
  counted hd := h'.counted (h.counted hd)
  count := Int.le_trans h.count h'.count
  keeps hd handle x hx := h'.keeps (h.counted hd) handle x (h.keeps hd handle x hx)
  found f hf := (h'.found f hf).elim (h.found f) .inr

/-- A new declaration is stored under a new handle. -/
theorem declare (d : Draft) (name : Name) (hd : d.IsCounted) :
    d.Grows source text (d.declare source name) where
  counted h := h.declare source name
  count := by
    rw [count_declare hd]
    omega
  keeps _ handle x hx := by
    have hne : d.nextHandle ≠ handle := by
      rintro rfl
      exact nextHandle_notMem hd ((Table.contains_iff_mem_keys _ _).1 (by
        simp [Table.contains, hx]))
    simpa [Draft.declare, hne] using hx
  found f hf := .inl hf

end Draft.Grows

namespace ParserState

theorem Leads.refl (s : ParserState) : s.Leads source text s := ⟨List.suffix_rfl, rfl, .refl _⟩

theorem Leads.trans (h : s.Leads source text t) (h' : t.Leads source text u) :
    s.Leads source text u :=
  ⟨h'.ahead.trans h.ahead, h'.finish.trans h.finish, h.draft.trans h'.draft⟩

theorem ReadsIn.leads (hs : s.ReadsIn text) (h : s.Leads source text t) : t.ReadsIn text :=
  ⟨h.ahead.trans hs.ahead, h.finish.trans hs.finish, h.draft.counted hs.counted⟩

theorem Leads.rest (s : ParserState) : s.Leads source text s.rest :=
  ⟨List.tail_suffix _, rfl, .refl _⟩

theorem ReadsIn.rest (hs : s.ReadsIn text) : s.rest.ReadsIn text :=
  ⟨(List.tail_suffix _).trans hs.ahead, hs.finish, hs.counted⟩

theorem ReadsIn.leads_declare (hs : s.ReadsIn text) (name : Name) :
    s.Leads source text (s.declare source name) :=
  ⟨List.suffix_rfl, rfl, .declare s.draft name hs.counted⟩

namespace ReadsIn

/-- The next token is one of those ahead, or the end. -/
theorem next_cases (hs : s.ReadsIn text) : s.next ∈ s.ahead ∨ s.next = endToken text := by
  unfold next
  cases s.ahead with
  | nil => exact .inr hs.finish
  | cons token rest => exact .inl List.mem_cons_self

/-- The next token is one of the text, or its end. -/
theorem next_isIn (hs : s.ReadsIn text) : s.next.IsIn text :=
  hs.next_cases.imp_left fun hmem => hs.ahead.mem hmem

/-- What is no end is a token of the text. -/
theorem next_mem (hs : s.ReadsIn text) (h : s.next.kind ≠ .finish) : s.next ∈ tokens text := by
  refine hs.next_isIn.resolve_right fun hend => h ?_
  rw [hend]
  rfl

theorem next_bounds (hs : s.ReadsIn text) :
    s.position ≤ s.next.span.stop ∧ s.next.span.stop ≤ text.length := hs.next_isIn.stop

theorem position_le_length (hs : s.ReadsIn text) : s.position ≤ text.length :=
  Nat.le_trans hs.next_bounds.1 hs.next_bounds.2

/-- What is read behind a token stands behind it. -/
theorem stop_le_position (hs : s.ReadsIn text) (h : s.rest.Leads source text t) :
    s.next.span.stop ≤ t.position := by
  have ht := hs.rest.leads h
  rcases ht.next_cases with hmem | hend
  · have hrest : t.next ∈ s.ahead.tail := h.ahead.mem hmem
    have hsorted := (pairwise_tokens text).sublist hs.ahead.sublist
    unfold position next
    cases hahead : s.ahead with
    | nil => simp [hahead] at hrest
    | cons token rest =>
      rw [hahead] at hrest hsorted
      exact (List.pairwise_cons.1 hsorted).1 t.next hrest
  · have := hs.next_bounds
    simp only [position, hend, endToken]
    omega

theorem position_le (hs : s.ReadsIn text) (h : s.Leads source text t) :
    s.position ≤ t.position := by
  cases hahead : s.ahead with
  | nil =>
    have hsame : t.ahead = [] := List.suffix_nil.1 (hahead ▸ h.ahead)
    simp [position, next, hahead, hsame, h.finish]
  | cons token rest =>
    rcases List.suffix_cons_iff.1 (hahead ▸ h.ahead) with hsame | hbehind
    · simp [position, next, hahead, hsame]
    · have hrest : s.rest.Leads source text t :=
        ⟨by simpa [ParserState.rest, hahead] using hbehind, h.finish, h.draft⟩
      exact Nat.le_trans hs.next_bounds.1 (hs.stop_le_position hrest)

end ReadsIn

end ParserState

/-! ## Rows of trees -/

/-- The trees that are read from one state to another stand in a row. -/
def Lays (source : String) (text : List Char) (s t : ParserState) (names : List Name)
    (l : List Node) : Prop :=
  IsRow source text t.draft.declarations s.position t.position s.draft.count t.draft.count names l

namespace Lays

variable {names names' : List Name} {l l' : List Node} {n : Node} {start : Nat}

theorem nil (hs : s.ReadsIn text) (h : s.Leads source text t) : Lays source text s t [] [] :=
  IsRow.nil (Int.ofNat_le.2 (hs.position_le h))

theorem append (hs : s.ReadsIn text) (hst : s.Leads source text t) (htu : t.Leads source text u)
    (h : Lays source text s t names l) (h' : Lays source text t u names' l') :
    Lays source text s u (names ++ names') (l ++ l') :=
  IsRow.append h h' (htu.draft.keeps (hs.leads hst).counted) hst.draft.count htu.draft.count

/-- Something may be read before the trees. -/
theorem before (hs : s.ReadsIn text) (hst : s.Leads source text t) (htu : t.Leads source text u)
    (h : Lays source text t u names l) : Lays source text s u names l :=
  (nil hs hst).append hs hst htu h

/-- Something may be read behind the trees. -/
theorem behind (hs : s.ReadsIn text) (hst : s.Leads source text t) (htu : t.Leads source text u)
    (h : Lays source text s t names l) : Lays source text s u names l := by
  simpa using h.append hs hst htu (nil (hs.leads hst) htu)

/-- A node that ends with a token stands over the trees before this token. -/
theorem above (hs : s.ReadsIn text) (hst : s.Leads source text t) (htu : t.rest.Leads source text u)
    (h : Lays source text s t names n.children)
    (hlocation : n.location = (⟨start, t.next.span.stop⟩ : Span).within source)
    (hstart : s.position ≤ start) (hline : Node.InLine start t.position n.children)
    (hspan : start < t.next.span.stop) (hdeclared : IsDeclared text u.draft.declarations n)
    (hgiven : ∀ handle, n.label.declares = some handle →
      t.draft.count < handle ∧ handle ≤ u.draft.count) :
    Lays source text s u names [n] := by
  have ht := hs.leads hst
  have hrest := ht.rest
  have hbounds := ht.next_bounds
  have hstop := ht.stop_le_position htu
  have hlength := (hrest.leads htu).position_le_length
  have hrow : IsRow source text t.draft.declarations n.location.start n.location.stop
      s.draft.count t.draft.count names n.children :=
    { h with
      inLine := by
        rw [hlocation]
        exact hline.widen (Int.le_refl _) (Int.ofNat_le.2 hbounds.1) }
  refine hrow.above (by rw [hlocation]; rfl) ?_ (Int.natCast_nonneg _) ?_ ?_ (Int.ofNat_le.2 hlength)
    (htu.draft.keeps ht.counted) htu.draft.count hdeclared hgiven hst.draft.count
  · simpa [hlocation, Span.within] using hspan
  · simpa [hlocation, Span.within] using hstart
  · simpa [hlocation, Span.within] using hstop

/-- A node without a declaration that ends with a token. -/
theorem closed (hs : s.ReadsIn text) (hst : s.Leads source text t)
    (h : Lays source text s t names n.children)
    (hlocation : n.location = (⟨start, t.next.span.stop⟩ : Span).within source)
    (hstart : s.position ≤ start) (hline : Node.InLine start t.position n.children)
    (hspan : start < t.next.span.stop) (hnone : n.label.declares = none) :
    Lays source text s t.rest names [n] := by
  refine h.above hs hst (.refl _) hlocation hstart hline hspan ?_ ?_ <;>
  · intro handle hdeclares
    rw [hnone] at hdeclares
    cases hdeclares

/-- A node from the first token to a last one. -/
theorem enclosed (hs : s.ReadsIn text) (hst : s.Leads source text t)
    (h : Lays source text s t names n.children) (hclose : t.next ∈ tokens text)
    (hlocation : n.location = (⟨s.position, t.next.span.stop⟩ : Span).within source)
    (hnone : n.label.declares = none) : Lays source text s t.rest names [n] :=
  h.closed hs hst hlocation (Nat.le_refl _) h.inLine
    (Nat.lt_of_le_of_lt (hs.position_le hst) (isPieceOf_of_mem_tokens hclose).nonempty) hnone

/-- A node of one token. -/
theorem leaf (hs : s.ReadsIn text) (hmem : s.next ∈ tokens text) {label : NodeLabel}
    (hlocation : label.location = s.next.span.within source) (hnone : label.declares = none) :
    Lays source text s s.rest [] [{ label }] :=
  (nil hs (.refl s)).enclosed hs (.refl s) hmem hlocation hnone

/-- A node that ends with a token and is declared when this token is read. -/
theorem declaring (hs : s.ReadsIn text) (hst : s.Leads source text t)
    (h : Lays source text s t names n.children)
    (hlocation : n.location = (⟨s.position, t.next.span.stop⟩ : Span).within source)
    {name : Name} (htoken : name.IsTokenOf text) (hfront : s.position ≤ name.span.start)
    (hback : name.span.stop ≤ t.next.span.stop) (hname : n.label.name = some name.text)
    (hdeclares : n.label.declares = some t.rest.draft.nextHandle) :
    Lays source text s (t.rest.declare source name) names [n] := by
  have hrest := (hs.leads hst).rest
  have hcount : (t.rest.declare source name).draft.count = t.draft.count + 1 :=
    Draft.count_declare hrest.counted source name
  have hspan : name.span.start < name.span.stop := by
    obtain ⟨token, hmem, -, rfl⟩ := htoken
    exact (isPieceOf_of_mem_tokens hmem).nonempty
  refine h.above hs hst (hrest.leads_declare _) hlocation (Nat.le_refl _) h.inLine (by omega)
    (fun handle hhandle => ?_) fun handle hhandle => ?_
  · obtain rfl := Option.some.inj (hdeclares.symm.trans hhandle)
    refine ⟨name, htoken, hname, ?_, ?_⟩
    · simp [ParserState.declare, Draft.declare, hlocation, Span.within]
    · simpa [hlocation, Span.within] using ⟨hfront, hback⟩
  · obtain rfl := Option.some.inj (hdeclares.symm.trans hhandle)
    rw [hcount]
    exact ⟨Int.lt_succ _, Int.le_refl _⟩

end Lays

end

end Toy

end LanguageServer
