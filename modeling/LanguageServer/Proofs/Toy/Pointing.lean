import LanguageServer.Proofs.Document.RoundTrip
import LanguageServer.Proofs.Toy.Innermost
import LanguageServer.Proofs.Toy.Mirror
import LanguageServer.Proofs.Toy.Spacing
import LanguageServer.Proofs.Toy.WellFormed

/-!
# Pointing at names

The places of names are read back from their positions, and where the name of a node ends the search
for the smallest node finds that node.  This holds of the units that are read, and of those that are
bound.

## Main definitions

* `CompiledUnit.IsReadFrom` — what the server sees of a unit that is read from a text.

## Main statements

* `offsetAt_positionAt_of_name` — the places in a name, and the one behind it, are read back.
* `CompiledUnit.IsReadFrom.innermost_of_nameEnds` — which node is found where a name ends.
* `Gathering.isReadFrom_bindAll` — the units of a program are read from their texts.
* `Gathering.exists_declares_of_references` — what is referred to is declared by a node of a unit.
-/

namespace LanguageServer

/-! ## Places in names -/

namespace Toy

open Text

/-- No line ends inside a name. -/
theorem exists_getElem?_of_name {text : List Char} {t : Token} (ht : t ∈ tokens text)
    (hkind : t.kind = .name) {i : Nat} (hstart : t.span.start ≤ i) (hstop : i < t.span.stop) :
    ∃ c, text[i]? = some c ∧ c ≠ '\n' ∧ c ≠ '\r' := by
  obtain ⟨front, first, rest, -, hpiece, htext, -⟩ := exists_cutPiece_of_mem_tokensFrom 0 text t ht
  rw [hkind] at hpiece
  obtain ⟨hfirst, hrest⟩ := cutPiece_name hpiece
  have hspells := (isPieceOf_of_mem_tokens ht).spells
  have hbound := (isPieceOf_of_mem_tokens ht).stop
  have htaken : (cutPiece first rest).2.1 = first :: rest.takeWhile isWord := congrArg Prod.fst hrest
  rw [htext, htaken] at hspells
  obtain ⟨c, hc⟩ : ∃ c, text[i]? = some c := ⟨_, List.getElem?_eq_getElem (by omega)⟩
  have hmem : c ∈ first :: rest.takeWhile isWord := by
    rw [← hspells]
    refine List.mem_of_getElem? (i := i - t.span.start) ?_
    rw [List.getElem?_take_of_lt (by omega), List.getElem?_drop, Nat.add_sub_cancel' hstart, hc]
  have hword : isWord c = true := by
    rcases List.mem_cons.1 hmem with rfl | hmem
    · exact isWord_of_isNameStart hfirst
    · exact List.mem_takeWhile_imp hmem
  refine ⟨c, hc, ?_, ?_⟩
  · rintro rfl
    exact absurd hword (by decide)
  · rintro rfl
    exact absurd hword (by decide)

/-- The places in a name, and the one behind it, are read back from their positions. -/
theorem offsetAt_positionAt_of_name {text : String} {t : Token} (ht : t ∈ tokens text.toList)
    (hkind : t.kind = .name) {i : Nat} (hstart : t.span.start ≤ i) (hstop : i ≤ t.span.stop) :
    (LineIndex.ofString text).offsetAt ((LineIndex.ofString text).positionAt i) = .ok i := by
  have hpiece := isPieceOf_of_mem_tokens ht
  have hnonempty := hpiece.nonempty
  refine LineIndex.offsetAt_positionAt (Nat.le_trans hstop hpiece.stop) ?_
  by_cases hinside : i < t.span.stop
  · obtain ⟨c, hc, hfeed, -⟩ := exists_getElem?_of_name ht hkind hstart hinside
    exact .inl ⟨c, hc, hfeed⟩
  · obtain ⟨c, hc, -, hreturn⟩ := exists_getElem?_of_name (i := i - 1) ht hkind (by omega) (by omega)
    refine .inr fun hlast => hreturn ?_
    exact Option.some.inj (hc.symm.trans hlast)

/-! ## Trees of one shape -/

section

variable {source : String} {text : List Char} {d d' : Table Int Declaration} {lo hi : Int}
  {l l' : List Node}

/-- Trees of the same shape are spaced alike, if their handles lead to the same declarations. -/
theorem IsSpaced.of_bare (h : IsSpaced source text d lo hi l)
    (hbare : Node.bareAll l' = Node.bareAll l)
    (hd : ∀ handle ∈ Node.declared l, d'.find? handle = d.find? handle) :
    IsSpaced source text d' lo hi l' := by
  -- Each node has a twin of its shape in the other trees, at the same place and with the same names.
  have htwin {n : Node} (hn : n ∈ Node.preorderAll l') : ∃ m ∈ Node.preorderAll l, m.bare = n.bare := by
    have hmem : n.bare ∈ (Node.preorderAll l).map Node.bare := by
      rw [← Node.preorderAll_bareAll, ← hbare, Node.preorderAll_bareAll]
      exact List.mem_map_of_mem hn
    exact List.mem_map.1 hmem
  have hlocation {n m : Node} (heq : m.bare = n.bare) : m.location = n.location := by
    rw [← Node.location_bare m, heq, Node.location_bare]
  have hlabel {n m : Node} (heq : m.bare = n.bare) :
      m.kind = n.kind ∧ m.label.declares = n.label.declares := by
    have hlabels : m.label.bare = n.label.bare := by
      rw [← Node.label_bare, heq, Node.label_bare]
    exact ⟨congrArg (·.kind) hlabels, congrArg (·.declares) hlabels⟩
  have hends {n m : Node} (hm : m ∈ Node.preorderAll l) (heq : m.bare = n.bare) {e : Int}
      (he : n.NameEnds d' e) : m.NameEnds d e := by
    rcases he with ⟨hkind, rfl⟩ | ⟨handle, x, hdeclares, hx, rfl⟩
    · exact .inl ⟨(hlabel heq).1.trans hkind, by rw [hlocation heq]⟩
    · have hdeclared : m.label.declares = some handle := (hlabel heq).2.trans hdeclares
      refine .inr ⟨handle, x, hdeclared, ?_, rfl⟩
      rw [← hd handle (List.mem_filterMap.2 ⟨m, hm, hdeclared⟩), hx]
  refine ⟨h.le, fun n hn => ?_, fun n hn hkind => ?_, fun n hn e he => ?_, fun n hn e he k hk => ?_,
    fun n hn e he k hk => ?_⟩
  · obtain ⟨m, hm, heq⟩ := htwin hn
    exact hlocation heq ▸ h.starts m hm
  · obtain ⟨m, hm, heq⟩ := htwin hn
    exact hlocation heq ▸ h.token m hm ((hlabel heq).1.trans hkind)
  · obtain ⟨m, hm, heq⟩ := htwin hn
    exact hlocation heq ▸ h.ends m hm e (hends hm heq he)
  · obtain ⟨m, hm, heq⟩ := htwin hn
    obtain ⟨j, hj, hsame⟩ := htwin hk
    exact hlocation hsame ▸ h.apart m hm e (hends hm heq he) j hj
  · obtain ⟨m, hm, heq⟩ := htwin hn
    have hmem : k.bare ∈ (Node.preorderAll m.children).map Node.bare := by
      have hchildren := congrArg Node.children heq
      rw [Node.children_bare, Node.children_bare] at hchildren
      rw [← Node.preorderAll_bareAll, Node.bareAll_eq_map, hchildren, ← Node.bareAll_eq_map,
        Node.preorderAll_bareAll]
      exact List.mem_map_of_mem hk
    obtain ⟨j, hj, hsame⟩ := List.mem_map.1 hmem
    exact hlocation hsame ▸ h.inside m hm e (hends hm heq he) j hj

end

/-- There are drafts of every length. -/
theorem Draft.exists_isCounted (n : Nat) : ∃ d : Draft, d.IsCounted ∧ d.count = n := by
  induction n with
  | zero => exact ⟨.empty, isCounted_empty, rfl⟩
  | succ n ih =>
    obtain ⟨d, hd, hcount⟩ := ih
    refine ⟨d.declare "" ⟨"", 0, 0⟩, hd.declare _ _, ?_⟩
    rw [count_declare hd, hcount]
    rfl

end Toy

/-! ## Units -/

open Toy

/-- What the server sees of a unit that is read from a text. -/
structure CompiledUnit.IsReadFrom (text : List Char) (d : Table Int Declaration) (u : CompiledUnit) :
    Prop where
  laidOut : ∀ m ∈ u.root.preorder, m.IsLaidOut u.source text.length
  declared : ∀ m ∈ u.root.preorder, IsDeclared text d m
  sorted : IsSortedTree u.source u.root
  spaced : IsSpaced u.source text d 0 (text.length + 1) [u.root]

namespace CompiledUnit.IsReadFrom

variable {text : List Char} {d : Table Int Declaration} {u : CompiledUnit} {m : Node} {e : Int}

/-- Where a name ends, a token does that is a name. -/
theorem exists_token (h : u.IsReadFrom text d) (hm : m ∈ u.root.preorder) (he : m.NameEnds d e) :
    ∃ t ∈ tokens text, t.kind = .name ∧ e = t.span.stop := by
  rcases he with ⟨hkind, rfl⟩ | ⟨handle, x, hdeclares, hx, rfl⟩
  · obtain ⟨t, ht, hname, hlocation⟩ := h.spaced.token m (by simpa [Node.preorderAll] using hm) hkind
    exact ⟨t, ht, hname, by rw [hlocation]; rfl⟩
  · obtain ⟨name, ⟨t, ht, hname, rfl⟩, -, hfind, -⟩ := h.declared m hm handle hdeclares
    obtain rfl := Option.some.inj (hfind.symm.trans hx)
    exact ⟨t, ht, hname, rfl⟩

/-- The name of a node ends in it. -/
theorem contains_of_nameEnds (h : u.IsReadFrom text d) (hm : m ∈ u.root.preorder)
    (he : m.NameEnds d e) : m.location.contains e = true := by
  have hends := h.spaced.ends m (by simpa [Node.preorderAll] using hm) e he
  refine SourceLocation.contains_iff.2 ⟨Int.le_of_lt hends.1, ?_⟩
  rcases he with ⟨-, rfl⟩ | ⟨handle, x, hdeclares, hx, rfl⟩
  · exact Int.le_refl _
  · obtain ⟨name, -, -, hfind, -, hstop⟩ := h.declared m hm handle hdeclares
    obtain rfl := Option.some.inj (hfind.symm.trans hx)
    exact hstop

/-- Where the name of a node ends, that node is found. -/
theorem innermost_of_nameEnds (h : u.IsReadFrom text d) (hm : m ∈ u.root.preorder)
    (he : m.NameEnds d e) : innermost u.root e = some m := by
  have hmem {k : Node} (hk : k ∈ u.root.preorder) : k ∈ Node.preorderAll [u.root] := by
    simpa [Node.preorderAll] using hk
  have hends := h.spaced.ends m (hmem hm) e he
  have htouches := h.contains_of_nameEnds hm he
  refine innermost_eq_some h.laidOut hm htouches ?_ ?_ ?_
  · intro k hk htouched hbehind
    rw [SourceLocation.contains_iff] at htouches htouched
    exact absurd (by omega) (h.spaced.apart m (hmem hm) e he k (hmem hk))
  · intro k hk htouched
    rw [SourceLocation.contains_iff] at htouched
    have := h.spaced.inside m (hmem hm) e he k hk
    omega
  · intro k _ htouched hbefore
    rw [SourceLocation.contains_iff] at htouched
    omega

end CompiledUnit.IsReadFrom

/-! ## Programs -/

namespace Toy.Gathering

variable {sources : Table String String} {exchanges exchanges' : List Exchange} {g : Gathering}
  {o : Origin} {place : String → Int}

/-- The tree of a source, apart from what names refer to. -/
theorem isSpaced_unit (h : IsComplete o place exchanges g) {name : String}
    (hname : g.units.contains name = true) {text : String} (htext : o.text? name = some text)
    {root : Node} (hbare : root.bare = ((o.unit name).relabel (· + place name)).toUnit.root.bare) :
    IsSpaced name text.toList g.draft.declarations 0 (text.toList.length + 1) [root] := by
  have halone : o.alone name = parseAlone name text := by
    rw [Origin.alone, htext]
    rfl
  -- Handles are given out from the place of the source on, as if it were read into a draft that has
  -- as many declarations.
  obtain ⟨base, hbase, hcount⟩ := Draft.exists_isCounted (place name).toNat
  rw [Int.toNat_of_nonneg (h.places.within name hname).1] at hcount
  have hparse : parseFile name text base =
      ((o.alone name).1.relabel (· + place name), base.behind (o.alone name).2) := by
    rw [halone]
    exact parseFile_eq hbase name text fun _ _ _ => by rw [hcount]
  have htree := (parseFile_sound name text hbase).1
  have hspaced := parseFile_spaced name text hbase
  rw [hparse] at htree hspaced
  refine hspaced.of_bare ?_ fun handle hhandle => ?_
  · rw [Node.bareAll, Node.bareAll, Node.bareAll, Node.bareAll, hbare, Origin.unit,
      ← SourceFile.resolved_relabel, SourceFile.bare_resolved]
  · have hgiven := htree.given handle hhandle
    simp only [Draft.count_behind, hcount] at hgiven
    have hsize : o.size name = (o.alone name).2.count := rfl
    have hold := h.places.declared name hname (handle - place name) (by omega) (by omega)
    have hnew := Draft.find?_behind_new (d := (o.alone name).2) hbase
      (h := handle - place name) (by omega)
    rw [Int.sub_add_cancel] at hold
    rw [hcount, Int.sub_add_cancel] at hnew
    rw [hold, hnew]

/-- The units of a program are read from their texts. -/
theorem isReadFrom_bindAll (hsound : g.IsSound sources exchanges')
    (h : IsComplete o place exchanges g) {name : String} {u : CompiledUnit}
    (hu : (bindAll g).units.find? name = some u) :
    u.source = name ∧ ∃ text, o.text? name = some text ∧
      u.IsReadFrom text.toList (bindAll g).declarations := by
  obtain ⟨w, c, hw, rfl⟩ := exists_bind_of_bindAll h.places.nodup hu
  obtain ⟨hcontains, hunit⟩ := h.places.eq_of_find? hw
  obtain ⟨rfl, text, htext, htree⟩ := hsound.unit name w hw
  rw [h.follows.find?_eq (h.follows.units w.source hcontains)] at htext
  have hbound := IsSound.isSoundIn_bind c htree
  have hspaced := isSpaced_unit h hcontains htext
    ((w.bare_bind g.units c).trans (congrArg (fun v => v.toUnit.root.bare) hunit))
  exact ⟨rfl, text, htext,
    { laidOut := fun m hm => (hbound m hm).laidOut
      declared := fun m hm => (hbound m hm).declared
      sorted := SourceFile.isSortedTree _
      spaced := hspaced }⟩

/-- Units are sound if only what their nodes declare is stored. -/
theorem isSound_restrict (h : g.IsSound sources exchanges) {name : String} {u : SourceFile}
    (hu : g.units.find? name = some u) :
    ∃ text, u.IsSound text (g.draft.declarations.restrict (· ∈ declared g.units)) := by
  obtain ⟨-, text, -, hsound⟩ := h.unit name u hu
  refine ⟨text.toList, fun n hn => ⟨(hsound.tree n hn).laidOut, fun handle hhandle => ?_⟩, hsound.named⟩
  obtain ⟨other, htoken, hname, hfind, hinside⟩ := (hsound.tree n hn).declared handle hhandle
  have hmem : handle ∈ declared g.units := by
    refine List.mem_flatMap.2 ⟨u, List.mem_map.2 ⟨_, Table.mem_entries_of_find? hu, rfl⟩, ?_⟩
    exact List.mem_filterMap.2 ⟨n, by simpa [Node.preorderAll] using hn, hhandle⟩
  exact ⟨other, htoken, hname, by simpa [hmem] using hfind, hinside⟩

/-- What a node of a unit refers to is declared by a node of a unit. -/
theorem exists_declares_of_references (h : g.IsSound sources exchanges) {name : String}
    {u : CompiledUnit} (hu : (bindAll g).units.find? name = some u) {m : Node}
    (hm : m ∈ u.root.preorder) {handle : Int} (hreferences : m.label.references = some handle) :
    ∃ other v, (bindAll g).units.find? other = some v ∧
      ∃ k ∈ v.root.preorder, k.label.declares = some handle := by
  obtain ⟨w, c, hw, rfl⟩ := exists_bind_of_bindAll h.keys hu
  have hstored (other : String) (v : SourceFile) (hv : g.units.find? other = some v) :
      ∀ x ∈ v.declarations,
        x.IsStored (fun _ => True) (g.draft.declarations.restrict (· ∈ declared g.units)) := by
    obtain ⟨text, hsound⟩ := isSound_restrict h hv
    exact hsound.isStored (hsound.standsIn fun _ _ => trivial)
  obtain ⟨text, hsound⟩ := isSound_restrict h hw
  have huse := SourceFile.use_mem_uses hm (by simp [Node.isUse, hreferences])
  have hbound := (SourceFile.bind_finds (c := c) hstored hsound
    (hsound.standsIn fun _ _ => trivial)).2 _ huse
  obtain ⟨x, hfind, -⟩ := hbound handle hreferences
  have hmem : handle ∈ declared g.units := by
    by_contra hnone
    simp [hnone] at hfind
  rw [← IsSound.declared_bindAll] at hmem
  obtain ⟨v, hv, hdeclared⟩ := List.mem_flatMap.1 hmem
  obtain ⟨⟨other, v⟩, hentry, rfl⟩ := List.mem_map.1 hv
  obtain ⟨k, hk, hdeclares⟩ := List.mem_filterMap.1 hdeclared
  exact ⟨other, v, Table.find?_of_mem_entries (nodup_bindAll h.keys) hentry, k,
    by simpa [Node.preorderAll] using hk, hdeclares⟩

end Toy.Gathering

end LanguageServer
