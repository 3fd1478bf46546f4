import LanguageServer.Proofs.Toy.Spacing
import LanguageServer.Proofs.Toy.WellFormed
import LanguageServer.Proofs.Workspace.Compiled

/-!
# Where import directives stand

An import directive reaches from the word that it begins with to its semicolon, so it takes more
than one token.  What the compiler reports stands at a single token, or inside another construct.
So nothing is reported exactly where a directive stands, and no two directives stand in one place.

## Main definitions

* `CompiledUnit.directives` — the import directives of a unit.
* `Span.IsWide` — a span reaches from one token of a text to another.
* `Item.IsDirected` — an import directive is wide, and its path is a token without quotes.

## Main statements

* `parseFile_wide` — the directives of a unit are wide.
* `Gathering.nodup_directives` — no two directives of a unit stand in one place.
* `Gathering.location_ne_of_mem_directives` — nothing is reported where a directive stands.
-/

namespace LanguageServer

/-- The import directives of a unit, in order. -/
def CompiledUnit.directives (u : CompiledUnit) : List Node :=
  u.root.preorder.filter (·.label.importPath.isSome)

theorem CompiledUnit.mem_directives {u : CompiledUnit} {m : Node} :
    m ∈ u.directives ↔ m ∈ u.root.preorder ∧ ∃ path, m.label.importPath = some path := by
  simp [directives, Option.isSome_iff_exists]

namespace Toy

/-! ## Wide spans -/

/-- A span reaches from one token of a text to another behind it. -/
def Span.IsWide (text : List Char) (s : Span) : Prop :=
  ∃ first ∈ tokens text, ∃ last ∈ tokens text,
    first.span.stop ≤ last.span.start ∧ s = ⟨first.span.start, last.span.stop⟩

theorem Span.within_injective (source : String) : Function.Injective (Span.within source) := by
  rintro ⟨start, stop⟩ ⟨start', stop'⟩ h
  simpa [Span.within, Int.ofNat_inj] using h

/-- Of two members of an ordered list one comes before the other. -/
theorem rel_or_rel_of_mem {α : Type} {R : α → α → Prop} {l : List α} (h : l.Pairwise R) {a b : α}
    (ha : a ∈ l) (hb : b ∈ l) (hne : a ≠ b) : R a b ∨ R b a := by
  have hsymm : Std.Symm fun x y => R x y ∨ R y x := ⟨fun _ _ => Or.symm⟩
  have heither : l.Pairwise fun x y => R x y ∨ R y x := h.imp Or.inl
  exact heither.forall ha hb hne

section

variable {text : List Char} {t t' : Token}

/-- No two tokens start in one place. -/
theorem Token.eq_of_start (ht : t ∈ tokens text) (ht' : t' ∈ tokens text)
    (h : t.span.start = t'.span.start) : t = t' := by
  by_contra hne
  have hapart := rel_or_rel_of_mem (pairwise_tokens text) ht ht' hne
  have hfilled := (isPieceOf_of_mem_tokens ht).nonempty
  have hfilled' := (isPieceOf_of_mem_tokens ht').nonempty
  omega

/-- A wide span is not that of a token. -/
theorem Span.IsWide.ne {s : Span} (h : s.IsWide text) (ht : t.IsIn text) : s ≠ t.span := by
  obtain ⟨first, hfirst, last, hlast, hle, rfl⟩ := h
  intro heq
  have hstart : first.span.start = t.span.start := congrArg (·.start) heq
  have hstop : last.span.stop = t.span.stop := congrArg (·.stop) heq
  have hfilled := (isPieceOf_of_mem_tokens hfirst).nonempty
  have hfilled' := (isPieceOf_of_mem_tokens hlast).nonempty
  rcases ht with hmem | rfl
  · obtain rfl := Token.eq_of_start hfirst hmem hstart
    omega
  · simp only [endToken] at hstart hstop
    omega

end

/-! ## Reading directives -/

/-- If an item is an import directive, its span is wide. -/
def Item.IsWide (text : List Char) (i : Item) : Prop :=
  ∀ path span target, i = .importing path span target → span.IsWide text

/-- If an item is an import directive, its path is a token of the text without its quotes, and its span
is wide. -/
def Item.IsDirected (text : List Char) (i : Item) : Prop :=
  ∀ path span target, i = .importing path span target →
    (∃ t ∈ tokens text, path = Parser.unquoted t.text) ∧ span.IsWide text

namespace Parser

variable {source : String} {text : List Char} {s : ParserState}

theorem directed_importDirective (hs : s.ReadsIn text) (hmem : s.next ∈ tokens text) :
    Meets source text s importDirective (fun i _ => i.IsDirected text) := by
  have hs₁ := hs.rest
  have hpath : s.rest.Leads source text s.rest.rest := .rest s.rest
  refine .advance_bind (.current_bind ?_)
  split
  · next hstring =>
    refine .advance_bind (.expect_bind hs₁.rest fun hclose => .pure ?_)
    rintro _ _ _ ⟨⟩
    have hkind : s.rest.next.kind = .string := by simpa using hstring
    exact ⟨⟨s.rest.next, hs₁.next_mem (by simp [hkind]), rfl⟩,
      s.next, hmem, s.rest.rest.next, hclose, hs.stop_le_position hpath, rfl⟩
  · exact .reject hs₁ _

theorem directed_functionDefinition (hs : s.ReadsIn text) :
    Meets source text s (functionDefinition source) (fun i _ => i.IsDirected text) := by
  have hs₁ := hs.rest
  have hs₂ := hs₁.rest
  refine .advance_bind (.identifier_bind hs₁ fun _ => .expect_bind hs₂ fun _ => ?_)
  refine (meets_parameters hs₂.rest).bind fun _ t ht _ => ?_
  have ht' := hs₂.rest.leads ht
  refine .expect_bind ht' fun _ => .expect_bind ht'.rest fun _ => .get_bind ?_
  refine (meets_body _ ht'.rest.rest).bind fun _ u hu _ => ?_
  exact .advance_bind (.declare_bind (ht'.rest.rest.leads hu).rest (.pure fun _ _ _ => nofun))

theorem directed_item (hs : s.ReadsIn text) :
    Meets source text s (item source) (fun i _ => i.IsDirected text) := by
  refine .current_bind ?_
  split
  · next himport => exact directed_importDirective hs (next_mem_of_is hs himport)
  split
  · exact (meets_variableDeclaration hs).bind fun _ _ _ _ => .pure fun _ _ _ => nofun
  split
  · exact directed_functionDefinition hs
  split
  · exact .reject hs _
  · exact (meets_assignmentOrExpression hs).bind fun _ _ _ _ => .pure fun _ _ _ => nofun

theorem directed_items (n : Nat) : ∀ {s : ParserState}, s.ReadsIn text →
    Meets source text s (items source n) (fun l _ => ∀ i ∈ l, i.IsDirected text) := by
  induction n with
  | zero => exact fun _ => .pure fun _ => nofun
  | succ n ih =>
    intro s hs
    refine .current_bind ?_
    split
    · exact .pure fun _ => nofun
    · refine (meets_orSkip (directed_item hs)).bind fun item t ht hitem =>
        (ih (hs.leads ht)).bind fun more _ _ hmore => .pure fun i hi => ?_
      rcases List.mem_append.1 hi with hi | hi
      · exact hitem i (Option.mem_toList.1 hi)
      · exact hmore i hi

end Parser

/-- The paths and spans of the import directives of a unit that is read. -/
theorem parseFile_directed (source text : String) {draft : Draft} (hdraft : draft.IsCounted) :
    ∀ i ∈ (parseFile source text draft).1.items, i.IsDirected text.toList := by
  have hs := ParserState.readsIn_start text.toList hdraft
  obtain ⟨items, t, hread, -, hdirected⟩ := exists_parseFile_of_meets (Parser.directed_items _ hs)
  rw [hread]
  rcases hdirected with hdirected | rfl
  · exact hdirected
  · exact fun _ => nofun

/-- The import directives of a unit that is read are wide. -/
theorem parseFile_wide (source text : String) {draft : Draft} (hdraft : draft.IsCounted) :
    ∀ i ∈ (parseFile source text draft).1.items, i.IsWide text.toList :=
  fun i hi path span target heq => (parseFile_directed source text hdraft i hi path span target heq).2

/-- The import directives of a source are wide. -/
theorem Origin.isWide_unit {o : Origin} {n text : String} (h : o.text? n = some text) :
    ∀ i ∈ (o.unit n).items, i.IsWide text.toList := by
  rintro _ hi path span target rfl
  obtain ⟨-, spelled, hspelled⟩ := Origin.mem_items_unit hi
  have halone : o.alone n = parseFile n text .empty := by
    rw [Origin.alone, h]
    rfl
  rw [halone] at hspelled
  exact parseFile_wide n text Draft.isCounted_empty _ hspelled _ _ _ rfl

/-! ## Units -/

/-- The import directives of a unit are among its items. -/
theorem SourceFile.directives_toUnit (u : SourceFile) :
    u.toUnit.directives = u.toUnit.root.children.filter (·.label.importPath.isSome) := by
  unfold CompiledUnit.directives
  rw [← List.filterMap_eq_filter, u.filterMap_preorder_toUnit]
  · have hchildren : u.toUnit.root.children = u.items.map (·.toNode u.source) := rfl
    rw [hchildren, List.filterMap_map]
    rfl
  · intro n hplain
    simp [hplain.path]

section

variable {u : SourceFile} {text : List Char} {d : Table Int Declaration} {path : String}
  {span : Span} {target : Option String}

/-- Neither a name of a unit nor anything inside an item stands exactly where a directive does. -/
theorem SourceFile.IsSound.standsIn_ne (h : u.IsSound text d)
    (hdirective : .importing path span target ∈ u.items) (hwide : span.IsWide text) :
    u.StandsIn (· ≠ span.within u.source) where
  name name hname := by
    obtain ⟨t, ht, -, rfl⟩ := h.named name hname
    exact fun heq => hwide.ne (.inl ht) (Span.within_injective u.source heq.symm)
  inside i hi k hk heq := by
    have hroot := h.tree.self.laidOut
    have ha : i.toNode u.source ∈ u.toUnit.root.children := List.mem_map_of_mem hi
    have hb : (Item.importing path span target).toNode u.source ∈ u.toUnit.root.children :=
      List.mem_map_of_mem hdirective
    -- There is nothing inside a directive, so the node is inside another item, and items are apart.
    have hne : i.toNode u.source ≠ (Item.importing path span target).toNode u.source := by
      intro hsame
      rw [hsame] at hk
      cases hk
    have hapart := rel_or_rel_of_mem hroot.apart ha hb hne
    have hencloses := encloses_of_mem _ (hroot.filled _ ha)
      (fun k hk => (h.item hi k hk).laidOut) k (by simp [Node.preorder_eq, hk])
    have hfilled := hencloses.filled
    have hfront := hencloses.start
    have hback := hencloses.stop
    rw [heq] at hfilled hfront hback
    have hplace : ((Item.importing path span target).toNode u.source).location =
        span.within u.source := rfl
    rw [hplace] at hapart
    omega

end

/-! ## Programs -/

namespace Gathering

variable {sources : Table String String} {exchanges exchanges' : List Exchange} {g : Gathering}
  {o : Origin} {place : String → Int} {name : String} {u : CompiledUnit}

/-- No two import directives of a unit stand in one place. -/
theorem nodup_directives (h : g.IsSound sources exchanges)
    (hu : (bindAll g).units.find? name = some u) : (u.directives.map (·.location)).Nodup := by
  obtain ⟨w, c, hw, rfl⟩ := exists_bind_of_bindAll h.keys hu
  obtain ⟨-, text, -, htree⟩ := h.unit name w hw
  have hroot := (IsSound.isSoundIn_bind c htree).self.laidOut
  rw [SourceFile.directives_toUnit, List.Nodup, List.pairwise_map]
  refine (hroot.apart.sublist List.filter_sublist).imp_of_mem fun {a b} ha _ hbehind heq => ?_
  have hfilled := hroot.filled a (List.mem_filter.1 ha).1
  rw [heq] at hfilled hbehind
  omega

/-- Nothing is reported exactly where an import directive stands. -/
theorem location_ne_of_mem_directives (hsound : g.IsSound sources exchanges')
    (h : IsComplete o place exchanges g) (hu : (bindAll g).units.find? name = some u) {m : Node}
    (hm : m ∈ u.directives) : ∀ f ∈ (bindAll g).findings, f.location ≠ some m.location := by
  obtain ⟨hmem, path, hpath⟩ := CompiledUnit.mem_directives.1 hm
  obtain ⟨w, c, hw, rfl⟩ := exists_bind_of_bindAll hsound.keys hu
  obtain ⟨-, hsame⟩ := h.places.eq_of_find? hw
  obtain ⟨rfl, text, htext, hunit⟩ := hsound.unit name w hw
  obtain ⟨span, target, hbound, hnode⟩ := SourceFile.exists_importing_of_mem_preorder hmem hpath
  have hitem : .importing path span target ∈ w.items := mem_bindItems hbound
  have hplace : m.location = span.within w.source := by
    rw [hnode]
    rfl
  have hwide : span.IsWide text.toList := by
    have hread : o.text? w.source = some text := h.follows.text _ _ htext
    rw [hsame] at hitem
    exact Origin.isWide_unit hread _ (SourceFile.mem_items_of_relabel hitem) _ _ _ rfl
  intro f hf hlocation
  rw [findings_bindAll hsound.keys] at hf
  have hunits (other : String) (v : SourceFile) (hv : g.units.find? other = some v) :
      (∃ text, v.IsSound text g.draft.declarations) ∧ v.StandsIn (· ≠ m.location) := by
    obtain ⟨rfl, t, -, hother⟩ := hsound.unit other v hv
    refine ⟨⟨t.toList, hother⟩, ?_⟩
    by_cases hsame : v.source = w.source
    · rw [hsame] at hv
      obtain rfl := Option.some.inj (hv.symm.trans hw)
      exact hplace ▸ hunit.standsIn_ne hitem hwide
    · refine hother.standsIn fun l hl heq => hsame ?_
      rw [← hl.source, heq, hplace]
      rfl
  rcases bindEach_finds hunits (Text.sorted g.units.keys) f hf with hf | hf
  · obtain ⟨source, t, e, rfl, -, ht, htoken⟩ := hsound.found f hf
    have heq : e.token.span.within source = m.location := Option.some.inj hlocation
    rw [hplace] at heq
    obtain rfl : source = w.source := congrArg SourceLocation.source heq
    obtain rfl := Option.some.inj (ht.symm.trans htext)
    exact hwide.ne htoken (Span.within_injective w.source heq.symm)
  · obtain ⟨l, hl, hne⟩ := hf.location
    exact hne (Option.some.inj (hl.symm.trans hlocation))

end Gathering

end Toy

end LanguageServer
