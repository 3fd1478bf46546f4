import LanguageServer.Proofs.Toy.Locality
import LanguageServer.Proofs.Toy.Restriction
import LanguageServer.Toy.Engine
import Mathlib.Data.String.Basic
import Mathlib.Order.Basic

/-!
# What a compilation makes of some sources

If two compilations agree on some sources that import no others, then they make the same of
them, but for the handles: the units are placed behind others in each program.

## Main definitions

* `Gathering.Shared` — what two gatherings have in common.
* `Gathering.Shared.translation` — the handles of one in place of those of the other.

## Main statements

* `Gathering.Shared.mirrors` — the programs are the same on these sources, but for the handles.
-/

namespace LanguageServer

namespace Text

theorem atMost_iff {s t : String} : atMost s t = true ↔ s ≤ t := by
  rw [atMost, Bool.not_eq_true', decide_eq_false_iff_not, not_lt]

theorem pairwise_insertInOrder (s : String) {l : List String} (h : l.Pairwise (· ≤ ·)) :
    (insertInOrder s l).Pairwise (· ≤ ·) := by
  induction l with
  | nil => exact List.pairwise_singleton _ _
  | cons t rest ih =>
    obtain ⟨hfirst, hrest⟩ := List.pairwise_cons.1 h
    unfold insertInOrder
    split
    · next hle =>
      refine List.pairwise_cons.2 ⟨fun x hx => ?_, h⟩
      rcases List.mem_cons.1 hx with rfl | hx
      · exact atMost_iff.1 hle
      · exact le_trans (atMost_iff.1 hle) (hfirst x hx)
    · next hnot =>
      refine List.pairwise_cons.2 ⟨fun x hx => ?_, ih hrest⟩
      rcases List.mem_cons.1 ((insertInOrder_perm s rest).mem_iff.1 hx) with rfl | hx
      · exact le_of_not_ge fun hle => hnot (atMost_iff.2 hle)
      · exact hfirst x hx

/-- Sorted texts rise. -/
theorem pairwise_sorted (l : List String) : (sorted l).Pairwise (· ≤ ·) := by
  induction l with
  | nil => exact .nil
  | cons s rest ih => exact pairwise_insertInOrder s ih

/-- Only what is left matters for the order in which some texts are left. -/
theorem filter_sorted_eq {p : String → Bool} {l l' : List String}
    (h : (l.filter p).Perm (l'.filter p)) : (sorted l).filter p = (sorted l').filter p :=
  List.Perm.eq_of_pairwise (fun _ _ _ _ hle hge => le_antisymm hle hge)
    ((pairwise_sorted l).filter p) ((pairwise_sorted l').filter p)
    ((((sorted_perm l).filter p).trans h).trans ((sorted_perm l').filter p).symm)

end Text

namespace Toy

/-! ## Moving handles -/

theorem Statement.relabel_congr {ρ ρ' : Int → Int} {s : Statement}
    (h : ∀ x ∈ s.handles, ρ x = ρ' x) : s.relabel ρ = s.relabel ρ' := by
  cases s with
  | «variable» v => simp [relabel, h v.handle (List.mem_singleton_self _)]
  | _ => rfl

theorem Item.relabel_congr {ρ ρ' : Int → Int} {i : Item} (h : ∀ x ∈ i.handles, ρ x = ρ' x) :
    i.relabel ρ = i.relabel ρ' := by
  cases i with
  | importing path span source => rfl
  | statement s => exact congrArg Item.statement (Statement.relabel_congr h)
  | function f =>
    simp only [handles, List.cons_append, List.mem_cons, List.mem_append, List.mem_map] at h
    have hparameters : f.parameters.map (·.relabel ρ) = f.parameters.map (·.relabel ρ') :=
      List.map_congr_left fun p hp => by
        simp [Parameter.relabel, h p.handle (.inr (.inl ⟨p, hp, rfl⟩))]
    have hbody : f.body.map (·.relabel ρ) = f.body.map (·.relabel ρ') :=
      List.map_congr_left fun s hs => Statement.relabel_congr fun x hx =>
        h x (.inr (.inr (List.mem_flatMap.2 ⟨s, hs, hx⟩)))
    simp only [relabel, hparameters, hbody, h f.handle (.inl rfl)]

/-- Only the handles that a unit declares are moved. -/
theorem SourceFile.relabel_congr {ρ ρ' : Int → Int} {u : SourceFile}
    (h : ∀ x ∈ u.handles, ρ x = ρ' x) : u.relabel ρ = u.relabel ρ' := by
  have hitems : u.items.map (·.relabel ρ) = u.items.map (·.relabel ρ') :=
    List.map_congr_left fun i hi => Item.relabel_congr fun x hx =>
      h x (List.mem_flatMap.2 ⟨i, hi, hx⟩)
  simp only [relabel, hitems]

theorem Statement.relabel_relabel (ρ ρ' : Int → Int) (s : Statement) :
    (s.relabel ρ).relabel ρ' = s.relabel fun x => ρ' (ρ x) := by
  cases s <;> rfl

theorem Item.relabel_relabel (ρ ρ' : Int → Int) (i : Item) :
    (i.relabel ρ).relabel ρ' = i.relabel fun x => ρ' (ρ x) := by
  cases i with
  | importing path span source => rfl
  | statement s => exact congrArg Item.statement (s.relabel_relabel ρ ρ')
  | function f =>
    simp only [relabel, List.map_map]
    congr 2
    exact List.map_congr_left fun s _ => s.relabel_relabel ρ ρ'

theorem SourceFile.relabel_relabel (ρ ρ' : Int → Int) (u : SourceFile) :
    (u.relabel ρ).relabel ρ' = u.relabel fun x => ρ' (ρ x) := by
  simp only [relabel, List.map_map]
  congr 1
  exact List.map_congr_left fun i _ => i.relabel_relabel ρ ρ'

theorem Item.relabel_id (i : Item) : i.relabel (fun x => x) = i := by
  cases i with
  | importing path span source => rfl
  | statement s => cases s <;> rfl
  | function f =>
    have hbody : f.body.map (·.relabel fun x => x) = f.body :=
      (List.map_congr_left fun s _ => by cases s <;> rfl).trans (List.map_id _)
    have hparameters : f.parameters.map (·.relabel fun x => x) = f.parameters := List.map_id _
    simp only [relabel, hbody, hparameters]

theorem SourceFile.relabel_id (u : SourceFile) : u.relabel (fun x => x) = u := by
  have hitems : u.items.map (·.relabel fun x => x) = u.items :=
    (List.map_congr_left fun i _ => i.relabel_id).trans (List.map_id _)
  simp only [relabel, hitems]

theorem SourceFile.handles_resolved (rules : List Remapping) (u : SourceFile) :
    (u.resolved rules).handles = u.handles := by
  simp only [handles, resolved, List.flatMap_map]
  exact List.flatMap_congr fun i _ => by cases i <;> rfl

theorem Origin.source_unit (o : Origin) (n : String) : (o.unit n).source = n :=
  source_parseFile ..

/-- The handles of a source are counted from one. -/
theorem Origin.mem_handles_unit {o : Origin} {n : String} {x : Int} (h : x ∈ (o.unit n).handles) :
    0 < x ∧ x ≤ o.size n := by
  rw [Origin.unit, SourceFile.handles_resolved] at h
  exact mem_handles_parseAlone h

namespace Gathering

namespace Places

variable {o : Origin} {place : String → Int} {units : Table String SourceFile} {draft : Draft}
  {n : String} {u : SourceFile}

theorem source_eq (h : Places o place units draft) (hu : units.find? n = some u) : u.source = n := by
  rw [(h.eq_of_find? hu).2]
  exact o.source_unit n

/-- The handles that a unit declares stand behind its place. -/
theorem handle_bounds (h : Places o place units draft) (hu : units.find? n = some u) {x : Int}
    (hx : x ∈ u.handles) : place n < x ∧ x ≤ place n + o.size n := by
  obtain ⟨-, rfl⟩ := h.eq_of_find? hu
  rw [SourceFile.handles_relabel] at hx
  obtain ⟨y, hy, rfl⟩ := List.mem_map.1 hx
  have hbounds := Origin.mem_handles_unit hy
  omega

end Places

/-- What an item of a unit imports is imported by its source. -/
theorem IsComplete.mem_imports {o : Origin} {place : String → Int} {exchanges : List Exchange}
    {g : Gathering} (h : IsComplete o place exchanges g) {n m : String} {u : SourceFile}
    (hu : g.units.find? n = some u) {i : Item} (hi : i ∈ u.items) (hsource : i.source? = some m) :
    m ∈ o.imports n := by
  obtain ⟨hcontains, rfl⟩ := h.places.eq_of_find? hu
  rw [← Origin.imports_relabel_unit (h.follows.has (h.follows.units n hcontains)) (· + place n)]
  exact List.mem_filterMap.2 ⟨i, hi, hsource⟩

/-- What two gatherings have in common: they come from origins with the same texts under some names, and
have gathered the same of these; a source without a name is among them, if there is one. -/
structure Shared (P : String → Prop) (o o' : Origin) (place place' : String → Int)
    (exchanges exchanges' : List Exchange) (g g' : Gathering) : Prop where
  same : o.SameTexts P o'
  left : IsComplete o place exchanges g
  right : IsComplete o' place' exchanges' g'
  gathered : ∀ n, P n → g'.units.contains n = g.units.contains n
  nameless : g.units.contains "" = true ∨ g'.units.contains "" = true → P ""

namespace Shared

variable {P : String → Prop} {o o' : Origin} {place place' : String → Int}
  {exchanges exchanges' : List Exchange} {g g' : Gathering}

/-- The handles that are given in a shared source. -/
def Gives (P : String → Prop) (o : Origin) (place : String → Int) (g : Gathering) (n : String)
    (x : Int) : Prop :=
  P n ∧ g.units.contains n = true ∧ place n < x ∧ x ≤ place n + o.size n

/-- A handle is given in one source only. -/
theorem eq_of_gives (h : IsComplete o place exchanges g) {n m : String} {x : Int}
    (hn : Gives P o place g n x) (hm : g.units.contains m = true)
    (hlow : place m < x) (hhigh : x ≤ place m + o.size m) : n = m := by
  by_contra hne
  obtain ⟨-, hunit, hlow', hhigh'⟩ := hn
  rcases h.places.apart n m hunit hm hne with hapart | hapart <;> omega

theorem size_eq (h : Shared P o o' place place' exchanges exchanges' g g') {n : String} (hn : P n) :
    o'.size n = o.size n := h.same.size hn

theorem contains_right (h : Shared P o o' place place' exchanges exchanges' g g') {n : String}
    {x : Int} (hn : Gives P o place g n x) : g'.units.contains n = true :=
  (h.gathered n hn.1).trans hn.2.1

open Classical in
/-- The handle in the other program. -/
noncomputable def moved (P : String → Prop) (o : Origin) (place place' : String → Int) (g : Gathering)
    (x : Int) : Int :=
  if hx : ∃ n, Gives P o place g n x then x - place hx.choose + place' hx.choose else x

theorem moved_eq (h : IsComplete o place exchanges g) {n : String} {x : Int}
    (hn : Gives P o place g n x) : moved P o place place' g x = x - place n + place' n := by
  have hx : ∃ n, Gives P o place g n x := ⟨n, hn⟩
  have hsame : hx.choose = n := eq_of_gives h hx.choose_spec hn.2.1 hn.2.2.1 hn.2.2.2
  rw [moved, dif_pos hx, hsame]

/-- The handle in the other program is given in the same source. -/
theorem moved_bounds (h : Shared P o o' place place' exchanges exchanges' g g') {n : String} {x : Int}
    (hn : Gives P o place g n x) :
    place' n < moved P o place place' g x ∧ moved P o place place' g x ≤ place' n + o'.size n := by
  rw [moved_eq h.left hn, h.size_eq hn.1]
  obtain ⟨-, -, hlow, hhigh⟩ := hn
  omega

/-- The handles of the other program in place of those of the first, in the shared sources that were
gathered. -/
noncomputable def translation (h : Shared P o o' place place' exchanges exchanges' g g') : Renaming where
  handle := moved P o place place' g
  Covers x := ∃ n, Gives P o place g n x
  Near n := P n ∧ g.units.contains n = true
  injective := by
    rintro x y ⟨n, hn⟩ ⟨m, hm⟩ heq
    have hx := h.moved_bounds hn
    have hy := h.moved_bounds hm
    obtain rfl : n = m := by
      by_contra hne
      rcases h.right.places.apart n m (h.contains_right hn) (h.contains_right hm) hne
        with hapart | hapart <;> omega
    rw [moved_eq h.left hn, moved_eq h.left hm] at heq
    omega

/-- A shared source is a unit of both programs, or of neither. -/
theorem near_or_absent (h : Shared P o o' place place' exchanges exchanges' g g') {m : String}
    (hm : P m) : h.translation.Near m ∨ g.units.find? m = none ∧ g'.units.find? m = none := by
  cases hgathered : g.units.contains m with
  | true => exact .inl ⟨hm, hgathered⟩
  | false => exact .inr ⟨(Table.contains_eq_false_iff _ _).1 hgathered,
      (Table.contains_eq_false_iff _ _).1 ((h.gathered m hm).trans hgathered)⟩

theorem near_nameless_or_absent (h : Shared P o o' place place' exchanges exchanges' g g') :
    h.translation.Near "" ∨ g.units.find? "" = none ∧ g'.units.find? "" = none := by
  by_cases hunit : g.units.contains "" = true ∨ g'.units.contains "" = true
  · exact h.near_or_absent (h.nameless hunit)
  · simp only [not_or, Bool.not_eq_true, Table.contains_eq_false_iff] at hunit
    exact .inr hunit

/-- The units of shared sources are the same but for the handles. -/
theorem sameUnits (h : Shared P o o' place place' exchanges exchanges' g g') :
    SameUnits h.translation g.units g'.units where
  unit n hn := by
    obtain ⟨hn, hcontains⟩ := hn
    rw [h.left.places.unit n hcontains, h.right.places.unit n ((h.gathered n hn).trans hcontains),
      h.same.unit hn, Option.map_some, SourceFile.relabel_relabel]
    refine congrArg some (SourceFile.relabel_congr fun x hx => ?_)
    obtain ⟨hlow, hhigh⟩ := Origin.mem_handles_unit hx
    have hmoved : moved P o place place' g (x + place n) = x + place n - place n + place' n :=
      moved_eq h.left ⟨hn, hcontains, by omega, by omega⟩
    show _ = moved P o place place' g (x + place n)
    omega
  source n u hu := h.left.places.source_eq hu
  source' n u hu := h.right.places.source_eq hu
  covers n hn u hu y hy := ⟨n, hn.1, hn.2, h.left.places.handle_bounds hu hy⟩
  apart n hn u hu y hy := by
    obtain ⟨hlow, hhigh⟩ := h.left.places.handle_bounds hu hy
    rintro ⟨m, hm⟩
    have hcontains := (h.left.places.eq_of_find? hu).1
    exact hn (eq_of_gives h.left hm hcontains hlow hhigh ▸ ⟨hm.1, hm.2.1⟩)
  apart' n hn u hu y hy hmem := by
    -- The handle would lie in two sources of the other program.
    obtain ⟨m, hm⟩ := hy
    have hmoved := h.moved_bounds hm
    have hbounds := h.right.places.handle_bounds hu hmem
    have hne : n ≠ m := fun heq => hn (heq ▸ ⟨hm.1, hm.2.1⟩)
    have hhandle : h.translation.handle y = moved P o place place' g y := rfl
    rw [hhandle] at hbounds
    rcases h.right.places.apart n m (h.right.places.eq_of_find? hu).1 (h.contains_right hm) hne
      with hapart | hapart <;> omega
  keys n hn u hu i hi := by
    cases hsource : i.source? with
    | some m =>
      rw [show i.key = m by simp [Item.key, hsource]]
      exact h.near_or_absent (h.same.closed n hn.1 m (h.left.mem_imports hu hi hsource))
    | none =>
      rw [show i.key = "" by simp [Item.key, hsource]]
      exact h.near_nameless_or_absent

/-! ## Programs -/

/-- What was read of shared sources has no types yet, and the same was found in it. -/
theorem matched_start (h : Shared P o o' place place' exchanges exchanges' g g') :
    Matched h.translation ⟨.empty, g.draft.findings⟩ ⟨.empty, g'.draft.findings⟩ where
  types _ _ := rfl
  found n hn := by
    rw [h.left.places.found n hn.2, h.right.places.found n ((h.gathered n hn.1).trans hn.2),
      h.same.alone hn.1]
  concerns n hn f hf hlies := by
    refine ⟨hlies, ?_⟩
    obtain ⟨m, hm, hlies'⟩ := h.left.places.elsewhere f hf
    have hmem : f ∈ (o.alone m).2.findings :=
      h.left.places.found m hm ▸ List.mem_filter.2 ⟨hf, hlies'⟩
    simp [((isOf_alone o m).found f hmem).2]

open Classical in
/-- The shared sources are bound in the same order. -/
theorem filter_sorted_keys (h : Shared P o o' place place' exchanges exchanges' g g') :
    (Text.sorted g.units.keys).filter (decide <| h.translation.Near ·) =
      (Text.sorted g'.units.keys).filter (decide <| h.translation.Near ·) := by
  refine Text.filter_sorted_eq ((List.perm_ext_iff_of_nodup (h.left.places.nodup.filter _)
    (h.right.places.nodup.filter _)).2 fun n => ?_)
  simp only [List.mem_filter, decide_eq_true_eq, ← Table.contains_iff_mem_keys]
  refine and_congr_left fun hn => ?_
  rw [h.gathered n hn.1]

end Shared

namespace Shared

variable {P : String → Prop} {o o' : Origin} {place place' : String → Int}
  {exchanges exchanges' : List Exchange} {g g' : Gathering}

open Classical in
/-- The handles that are given in shared sources stay, and no others do. -/
noncomputable def still (h : Shared P o o' place place' exchanges exchanges' g g') : Renaming where
  handle x := if h.translation.Covers x then x else x + 1
  Covers := h.translation.Covers
  Near := h.translation.Near
  injective hx hy heq := by rwa [if_pos hx, if_pos hy] at heq

theorem handle_still (h : Shared P o o' place place' exchanges exchanges' g g') {x : Int}
    (hx : h.translation.Covers x) : h.still.handle x = x := if_pos hx

/-- A unit is its own counterpart if the handles of shared sources stay. -/
theorem sameUnits_still (h : Shared P o o' place place' exchanges exchanges' g g') :
    SameUnits h.still g.units g.units where
  unit n hn := by
    cases hu : g.units.find? n with
    | none => rfl
    | some u =>
      have hsame : u.relabel h.still.handle = u.relabel fun x => x :=
        SourceFile.relabel_congr fun x hx => h.handle_still (h.sameUnits.covers n hn u hu x hx)
      rw [Option.map_some, hsame, u.relabel_id]
  source := h.sameUnits.source
  source' := h.sameUnits.source
  covers := h.sameUnits.covers
  apart := h.sameUnits.apart
  apart' n hn u hu x hx hmem := by
    rw [h.handle_still hx] at hmem
    exact h.sameUnits.apart n hn u hu x hmem hx
  keys n hn u hu i hi := (h.sameUnits.keys n hn u hu i hi).imp id fun hnone => ⟨hnone.1, hnone.1⟩

open Classical in
/-- The uses in shared sources refer to what is declared there. -/
theorem isCovered (h : Shared P o o' place place' exchanges exchanges' g g') {n : String}
    (hn : h.translation.Near n) {u : CompiledUnit} (hu : (bindAll g).units.find? n = some u) :
    u.root.IsCovered h.translation := by
  -- If other handles are moved away, the tree stays as it is.
  have hstart : Matched h.still ⟨.empty, g.draft.findings⟩ ⟨.empty, g.draft.findings⟩ :=
    ⟨fun _ _ => rfl, fun _ _ => rfl, fun m hm f hf hlies =>
      ⟨hlies, (h.matched_start.concerns m hm f hf hlies).near⟩⟩
  have hbound : Table.findIn n g.boundEach.2 =
      (Table.findIn n g.boundEach.2).map (·.rename h.still.handle) :=
    (matched_bindEach h.sameUnits_still hstart (p := (decide <| h.translation.Near ·))
      (fun _ => decide_eq_true_iff) rfl).2 n hn
  rw [find?_bindAll h.left.places.nodup] at hu
  obtain ⟨v, hv, rfl⟩ := Option.map_eq_some_iff.1 hu
  rw [hv, Option.map_some] at hbound
  have htree : v.toUnit.root.rename h.still.handle = v.toUnit.root := by
    have hunit := congrArg SourceFile.toUnit (Option.some.inj hbound)
    rw [SourceFile.toUnit_rename] at hunit
    exact (congrArg CompiledUnit.root hunit).symm
  have hnodes := Node.preorder_rename (ρ := h.still.handle) v.toUnit.root
  rw [htree] at hnodes
  intro m hm x hx
  have hlabel : m.label.rename h.still.handle = m.label := by
    have hsame : m = m.rename h.still.handle :=
      List.map_inj_left.1 ((List.map_id _).trans hnodes) m hm
    exact ((congrArg Node.label hsame).trans m.label_rename).symm
  have hstays : h.still.handle x = x := by
    rcases hx with hx | hx
    · have hreferences := congrArg NodeLabel.references hlabel
      simpa [NodeLabel.rename, hx] using hreferences
    · have hdeclares := congrArg NodeLabel.declares hlabel
      simpa [NodeLabel.rename, hx] using hdeclares
  by_contra hnot
  have hmoved : h.still.handle x = x + 1 := if_neg hnot
  omega

open Classical in
/-- What compilations make of shared sources is the same but for the handles. -/
theorem mirrors (h : Shared P o o' place place' exchanges exchanges' g g') :
    (bindAll g).Mirrors h.translation (bindAll g') := by
  obtain ⟨hmatched, hbound⟩ : Matched h.translation g.boundEach.1 g'.boundEach.1 ∧
      ∀ n, h.translation.Near n → Table.findIn n g'.boundEach.2 =
        (Table.findIn n g.boundEach.2).map (·.rename h.translation.handle) :=
    matched_bindEach h.sameUnits h.matched_start (p := (decide <| h.translation.Near ·))
      (fun _ => decide_eq_true_iff) h.filter_sorted_keys
  have hdeclared {n : String} {x : Int} (hn : Gives P o place g n x) :
      ∃ y, x = y + place n ∧ h.translation.handle x = y + place' n ∧ 0 < y ∧ y ≤ o.size n := by
    refine ⟨x - place n, by omega, (moved_eq h.left hn).trans (by omega), ?_⟩
    obtain ⟨-, -, hlow, hhigh⟩ := hn
    omega
  have hnumbered {n : String} {y : Int} {d : Declaration}
      (hd : (o.alone n).2.declarations.find? y = some d) : d.handle = y :=
    (isOf_alone o n).numbered _ (Table.mem_entries_of_find? hd)
  exact
    { unit := fun n hn => by
        rw [find?_bindAll h.left.places.nodup, find?_bindAll h.right.places.nodup, hbound n hn,
          Option.map_map, Option.map_map]
        exact congrArg (Option.map · _) (funext fun u => u.toUnit_rename _)
      covered := fun n hn u hu => h.isCovered hn hu
      declared := fun x hx => by
        obtain ⟨n, hn⟩ := hx
        obtain ⟨y, rfl, hmoved, hlow, hhigh⟩ := hdeclared hn
        show g'.draft.declarations.find? _ = (g.draft.declarations.find? _).map _
        rw [hmoved, h.left.places.declared n hn.2.1 y hlow hhigh,
          h.right.places.declared n (h.contains_right hn) y hlow (h.size_eq hn.1 ▸ hhigh),
          h.same.alone hn.1, Option.map_map]
        cases hd : (o.alone n).2.declarations.find? y with
        | none => rfl
        | some d =>
          rw [Option.map_some, Option.map_some]
          simp only [Function.comp_apply, Renaming.declaration, hnumbered hd, hmoved]
      knows := fun x hx d hd => by
        obtain ⟨n, hn⟩ := hx
        obtain ⟨y, rfl, -, hlow, hhigh⟩ := hdeclared hn
        have hfind : g.draft.declarations.find? (y + place n) = some d := hd
        rw [h.left.places.declared n hn.2.1 y hlow hhigh] at hfind
        obtain ⟨e, he, rfl⟩ := Option.map_eq_some_iff.1 hfind
        refine ⟨⟨n, ?_⟩, ?_⟩
        · rw [hnumbered he]
          exact hn
        · rw [(isOf_alone o n).declared _ (Table.mem_entries_of_find? he)]
          exact ⟨hn.1, hn.2.1⟩
      found := fun n hn => by
        rw [findings_bindAll h.left.places.nodup, findings_bindAll h.right.places.nodup]
        exact hmatched.found n hn
      concerns := fun n hn f hf => by
        rw [findings_bindAll h.left.places.nodup] at hf
        exact hmatched.concerns n hn f hf }

end Shared

end Gathering

end Toy

end LanguageServer
