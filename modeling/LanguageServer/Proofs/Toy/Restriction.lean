import LanguageServer.Proofs.Toy.Gathering
import Mathlib.Algebra.GroupWithZero.Nat
import Mathlib.Data.List.Dedup

/-!
# Gathering fewer sources

If some sources are no longer handed to the compiler and nothing that is left leads to
them, then the sources that are left are gathered as before.  In particular it takes no
more steps: every name that waits was put there by the start or by the import of a unit,
and there are fewer of both.

## Main definitions

* `Origin.SameTexts` — two origins have the same texts under a set of names that is closed under
  imports.
* `Origin.Agrees` — they hand over the same ones of them and answer alike, too.
* `Origin.fanOut` — how many names a source makes wait.

## Main statements

* `Gathering.Gathers.cost_le` — what gathering costs.
* `Gathering.exists_gathers` — gathering ends within that.
* `Gathering.converse_run_endless` — gathering that does not end.
* `Gathering.exists_gathers_of_sameTexts` — the same texts are gathered if more of them are handed
  over.
* `Gathering.exists_gathers_of_agrees` — fewer sources are gathered in no more steps.
-/

namespace LanguageServer.Toy

/-! ## Agreement -/

/-- Two origins have the same texts under names that lead to nothing but such names, whether these are
handed over or read. -/
structure Origin.SameTexts (P : String → Prop) (o o' : Origin) : Prop where
  rules : o'.rules = o.rules
  text? : ∀ n, P n → o'.text? n = o.text? n
  closed : ∀ n, P n → ∀ m ∈ o.imports n, P m

/-- Two origins agree on names that lead to nothing but such names. -/
structure Origin.Agrees (P : String → Prop) (o o' : Origin) : Prop where
  rules : o'.rules = o.rules
  sources : ∀ n, P n → o'.sources.find? n = o.sources.find? n
  answer : ∀ n, P n → o'.answer sourceKind n = o.answer sourceKind n
  closed : ∀ n, P n → ∀ m ∈ o.imports n, P m

namespace Origin

/-- The number of names that a source makes wait. -/
def fanOut (o : Origin) (name : String) : Nat := ((o.imports name).filter o.has).length

namespace SameTexts

variable {P : String → Prop} {o o' : Origin} {n : String}

theorem has (h : SameTexts P o o') (hn : P n) : o'.has n = o.has n := by
  unfold Origin.has
  rw [h.text? n hn]

theorem alone (h : SameTexts P o o') (hn : P n) : o'.alone n = o.alone n := by
  unfold Origin.alone
  rw [h.text? n hn]

theorem size (h : SameTexts P o o') (hn : P n) : o'.size n = o.size n := by
  unfold Origin.size
  rw [h.alone hn]

theorem unit (h : SameTexts P o o') (hn : P n) : o'.unit n = o.unit n := by
  unfold Origin.unit
  rw [h.alone hn, h.rules]

theorem imports (h : SameTexts P o o') (hn : P n) : o'.imports n = o.imports n := by
  unfold Origin.imports
  rw [h.has hn, h.unit hn]

theorem fanOut (h : SameTexts P o o') (hn : P n) : o'.fanOut n = o.fanOut n := by
  unfold Origin.fanOut
  rw [h.imports hn]
  exact congrArg List.length (List.filter_congr fun m hm => h.has (h.closed n hn m hm))

/-- The names lead to nothing but such names by the imports of the other origin, too. -/
theorem closed' (h : SameTexts P o o') (hn : P n) : ∀ m ∈ o'.imports n, P m := by
  rw [h.imports hn]
  exact h.closed n hn

end SameTexts

namespace Agrees

variable {P : String → Prop} {o o' : Origin} {n : String}

theorem sameTexts (h : Agrees P o o') : SameTexts P o o' where
  rules := h.rules
  text? n hn := by
    unfold Origin.text?
    rw [h.sources n hn, h.answer n hn]
  closed := h.closed

theorem has (h : Agrees P o o') (hn : P n) : o'.has n = o.has n := h.sameTexts.has hn

theorem imports (h : Agrees P o o') (hn : P n) : o'.imports n = o.imports n :=
  h.sameTexts.imports hn

theorem closed' (h : Agrees P o o') (hn : P n) : ∀ m ∈ o'.imports n, P m := h.sameTexts.closed' hn

end Agrees

end Origin

namespace Gathering

variable {o : Origin}

/-! ## Where gathering leads -/

/-- Nothing is taken up but what the names at the start lead to. -/
theorem Gathers.within {P : String → Prop} (hclosed : ∀ n, P n → ∀ m ∈ o.imports n, P m) {k : Nat}
    {g g' : Gathering} {exchanges exchanges' : List Exchange} (h : Gathers o k g exchanges' g')
    {place : String → Int} (hfollows : Follows o exchanges g)
    (hplaces : Places o place g.units g.draft) (hpending : ∀ n ∈ g.pending, P n)
    (hunits : ∀ n, g.units.contains n = true → P n) :
    ∀ n, g'.units.contains n = true → P n := by
  refine h.backward (motive := fun _ g => (∀ n ∈ g.pending, P n) →
    (∀ n, g.units.contains n = true → P n) → ∀ n, g'.units.contains n = true → P n)
    hfollows hplaces (fun _ _ hunits => hunits) ?_ ?_ hpending hunits
  · intro _ g name rest hpending _ ih hnames hunits
    exact ih (fun n hn => hnames n (by simp [hpending, show n ∈ rest from hn])) hunits
  · intro _ g g₁ name rest hpending _ hunits₁ hpending₁ ih hnames hunits
    have hname : P name := hnames name (by simp [hpending])
    refine ih (fun n hn => ?_) fun n hn => ?_
    · rw [hpending₁] at hn
      rcases List.mem_append.1 hn with hn | hn
      · exact hnames n (by simp [hpending, hn])
      · exact hclosed name hname n (List.mem_filter.1 hn).1
    · rcases (hunits₁ n).1 hn with rfl | hn
      · exact hname
      · exact hunits n hn

/-! ## What gathering costs -/

theorem sum_map_erase {C : List String} {name : String} (hmem : name ∈ C) (f : String → Nat) :
    (C.map f).sum = f name + ((C.erase name).map f).sum := by
  rw [((List.perm_cons_erase hmem).map f).sum_nat]
  simp

/-- Every name that waits is taken up, and so is every name that a new unit makes wait. -/
theorem Gathers.cost_le {k : Nat} {g g' : Gathering} {exchanges exchanges' : List Exchange}
    (h : Gathers o k g exchanges' g') {place : String → Int} (hfollows : Follows o exchanges g)
    (hplaces : Places o place g.units g.draft) {C : List String} (hnodup : C.Nodup)
    (hC : ∀ n ∈ C, g'.units.contains n = true ∧ g.units.contains n = false) :
    g.pending.length + (C.map o.fanOut).sum ≤ k := by
  refine h.backward (motive := fun k g => ∀ C : List String, C.Nodup →
    (∀ n ∈ C, g'.units.contains n = true ∧ g.units.contains n = false) →
      g.pending.length + (C.map o.fanOut).sum ≤ k) hfollows hplaces ?_ ?_ ?_ C hnodup hC
  · intro hpending C _ hC
    have hnone : C = [] := by
      refine List.eq_nil_iff_forall_not_mem.2 fun n hn => ?_
      have := hC n hn
      simp [this.1] at this
    simp [hpending, hnone]
  · intro k g name rest hpending _ ih C hnodup hC
    have := ih C hnodup hC
    simp only [hpending, List.length_cons] at this ⊢
    omega
  · intro k g g₁ name rest hpending _ hunits₁ hpending₁ ih C hnodup hC
    have hnext (D : List String) (hD : D.Nodup) (hsub : ∀ n ∈ D, n ≠ name ∧ n ∈ C) :
        rest.length + o.fanOut name + (D.map o.fanOut).sum ≤ k := by
      have := ih D hD fun n hn => ⟨(hC n (hsub n hn).2).1, by
        rw [Bool.eq_false_iff]
        intro hunit
        rcases (hunits₁ n).1 hunit with rfl | hunit
        · exact (hsub _ hn).1 rfl
        · rw [(hC n (hsub n hn).2).2] at hunit
          cases hunit⟩
      rwa [hpending₁, List.length_append] at this
    by_cases hmem : name ∈ C
    · have := hnext (C.erase name) (hnodup.erase name) fun n hn =>
        ⟨fun heq => hnodup.not_mem_erase (heq ▸ hn), List.mem_of_mem_erase hn⟩
      rw [sum_map_erase hmem]
      simp only [hpending, List.length_cons]
      omega
    · have := hnext C hnodup fun n hn => ⟨fun heq => hmem (heq ▸ hn), hn⟩
      simp only [hpending, List.length_cons]
      omega

/-- The first name that waits can be taken up if no answer about its imports is a fault. -/
theorem exists_takes {g : Gathering} {exchanges : List Exchange} (hfollows : Follows o exchanges g)
    (hcounted : g.draft.IsCounted) {name : String} {rest : List String}
    (hpending : g.pending = name :: rest)
    (hanswer : ∀ m ∈ o.imports name, o.sources.contains m = false →
      ∃ outcome, o.answer sourceKind m = .ok outcome) :
    ∃ exchanges₁ g₁, Takes o g exchanges₁ g₁ := by
  cases hknown : g.units.contains name with
  | true => exact ⟨[], _, .skip hpending hknown⟩
  | false =>
    have hread : g.texts.contains name = true := hfollows.pending name (by simp [hpending])
    have hparse := parse_eq (g := { g with pending := rest }) hcounted (hfollows.find?_eq hread)
    have himports := o.imports_relabel_unit (hfollows.has hread) (· + g.draft.count)
    obtain ⟨exchanges₁, g₁, hask⟩ := exists_askAll
      (g := (({ g with pending := rest } : Gathering).parse o.rules name).2)
      (by rw [hparse]; exact hfollows.given) (himports ▸ hanswer)
    refine ⟨exchanges₁, g₁, .parse hpending hknown ?_⟩
    rw [← hask]
    simp only [hparse]

/-- Gathering ends if the names that can be taken up are known, and no answer about their imports
is a fault. -/
theorem exists_gathers {P : String → Prop} (hclosed : ∀ n, P n → ∀ m ∈ o.imports n, P m)
    (hanswer : ∀ n, P n → ∀ m ∈ o.imports n, o.sources.contains m = false →
      ∃ outcome, o.answer sourceKind m = .ok outcome) {k : Nat} {g : Gathering}
    {exchanges : List Exchange} {place : String → Int} (hfollows : Follows o exchanges g)
    (hplaces : Places o place g.units g.draft) (hpending : ∀ n ∈ g.pending, P n) {D : List String}
    (hnodup : D.Nodup)
    (hD : ∀ n, P n → o.has n = true → g.units.contains n = true ∨ n ∈ D)
    (hcost : g.pending.length + (D.map o.fanOut).sum ≤ k) :
    ∃ m ≤ k, ∃ exchanges' g', Gathers o m g exchanges' g' := by
  induction k generalizing g exchanges place D with
  | zero =>
    have hnone : g.pending = [] := List.length_eq_zero_iff.1 (by omega)
    exact ⟨0, Nat.le_refl 0, [], g, .done hnone⟩
  | succ k ih =>
    cases hnames : g.pending with
    | nil => exact ⟨0, Nat.zero_le _, [], g, .done hnames⟩
    | cons name rest =>
      have hname : P name := hpending name (by simp [hnames])
      have hrest : ∀ n ∈ rest, P n := fun n hn => hpending n (by simp [hnames, hn])
      have hread : g.texts.contains name = true := hfollows.pending name (by simp [hnames])
      rw [hnames, List.length_cons] at hcost
      cases hknown : g.units.contains name with
      | true =>
        have htake : Takes o g [] { g with pending := rest } := .skip hnames hknown
        obtain ⟨m, hm, exchanges', g', h⟩ := ih
          (hfollows.takes hplaces.counted htake) hplaces hrest hnodup hD
          (show rest.length + _ ≤ k by omega)
        exact ⟨m + 1, by omega, _, g', .take htake h⟩
      | false =>
        obtain ⟨exchanges₁, g₁, htake⟩ :=
          exists_takes hfollows hplaces.counted hnames (hanswer name hname)
        have hnext := hfollows.takes hplaces.counted htake
        obtain ⟨name', rest', hnames', ⟨hknown', -⟩ | ⟨-, hunits, hwaiting, place', hplaces'⟩⟩ :=
          hplaces.takes hfollows htake
        · obtain ⟨rfl, -⟩ := List.cons.inj (hnames.symm.trans hnames')
          rw [hknown] at hknown'
          cases hknown'
        · obtain ⟨rfl, rfl⟩ := List.cons.inj (hnames.symm.trans hnames')
          have hmem : name ∈ D := by
            rcases hD name hname (hfollows.has hread) with h | h
            · rw [hknown] at h
              cases h
            · exact h
          rw [sum_map_erase hmem] at hcost
          obtain ⟨m, hm, exchanges', g', h⟩ := ih hnext hplaces' (D := D.erase name)
            (fun n hn => by
              rw [hwaiting] at hn
              rcases List.mem_append.1 hn with hn | hn
              · exact hrest n hn
              · exact hclosed name hname n (List.mem_filter.1 hn).1)
            (hnodup.erase name)
            (fun n hn hhas => by
              rw [hunits]
              by_cases heq : name = n
              · exact .inl (.inl heq)
              · rcases hD n hn hhas with h | h
                · exact .inl (.inr h)
                · exact .inr ((List.mem_erase_of_ne (Ne.symm heq)).2 h))
            (by
              rw [hwaiting, List.length_append]
              show rest.length + o.fanOut name + _ ≤ k
              omega)
          exact ⟨m + 1, by omega, _, g', .take htake h⟩

/-- If each of infinitely many sources imports the next one, gathering the first of them does not
end. -/
theorem converse_run_endless {next : Nat → String} (hinjective : Function.Injective next)
    (himports : ∀ k, o.imports (next k) = [next (k + 1)])
    (hanswer : ∀ k, ∃ outcome, o.answer sourceKind (next k) = .ok outcome) {k : Nat} {g : Gathering}
    {exchanges : List Exchange} {place : String → Int} (hfollows : Follows o exchanges g)
    (hplaces : Places o place g.units g.draft) (hpending : g.pending = [next k])
    (hnew : ∀ j, k ≤ j → g.units.contains (next j) = false) (n : Nat) :
    ((run o.rules n g).converse o.answer).2 = .error .endless := by
  induction n generalizing g k exchanges place with
  | zero =>
    unfold run
    simp [hpending, Compiling.converse]
  | succ n ih =>
    obtain ⟨exchanges₁, g₁, htake⟩ := exists_takes hfollows hplaces.counted hpending fun m hm _ => by
      rw [himports, List.mem_singleton] at hm
      exact hm ▸ hanswer (k + 1)
    rw [converse_run_succ htake]
    have hnext := hfollows.takes hplaces.counted htake
    obtain ⟨name, rest, hnames, ⟨hknown, -⟩ | ⟨-, hunits, hwaiting, place', hplaces'⟩⟩ :=
      hplaces.takes hfollows htake
    · obtain ⟨rfl, -⟩ := List.cons.inj (hpending.symm.trans hnames)
      rw [hnew k (Nat.le_refl k)] at hknown
      cases hknown
    · obtain ⟨rfl, rfl⟩ := List.cons.inj (hpending.symm.trans hnames)
      have himported : next (k + 2) ∈ o.imports (next (k + 1)) := by simp [himports]
      have hhas := Origin.has_of_mem_imports himported
      refine ih (k := k + 1) hnext hplaces' (by simp [hwaiting, himports, hhas]) fun j hj => ?_
      rw [Bool.eq_false_iff]
      intro hcontains
      rcases (hunits _).1 hcontains with heq | hcontains
      · have := hinjective heq
        omega
      · rw [hnew j (by omega)] at hcontains
        cases hcontains

/-- The same texts are gathered if some more of them are handed over, each in one more step, as long as
all of these were gathered before. -/
theorem exists_gathers_of_sameTexts {P : String → Prop} {o' : Origin} (hsame : o.SameTexts P o')
    (hanswer : ∀ n, P n → o'.sources.contains n = false →
      o.sources.contains n = false ∧ o'.answer sourceKind n = o.answer sourceKind n)
    (more : Nat) (hlength : o'.sources.keys.length ≤ o.sources.keys.length + more) {k : Nat}
    {g : Gathering} {exchanges : List Exchange} (h : Gathers o k (.start o.sources) exchanges g)
    (hsources : ∀ n, o'.sources.contains n = true → P n ∧ g.units.contains n = true) :
    ∃ m ≤ k + more, ∃ exchanges' g', Gathers o' m (.start o'.sources) exchanges' g' := by
  classical
  obtain ⟨place, hcomplete⟩ := h.isComplete (.start o) (.empty o)
  rw [List.nil_append] at hcomplete
  -- Only those of the names matter that were gathered before, or that do not exist.
  have hclosed : ∀ n, P n ∧ (o.has n = true → g.units.contains n = true) →
      ∀ m ∈ o'.imports n, P m ∧ (o.has m = true → g.units.contains m = true) := by
    rintro n ⟨hn, hunit⟩ m hm
    rw [hsame.imports hn] at hm
    exact ⟨hsame.closed n hn m hm,
      fun hhas => (hcomplete.contains_of_import (hunit (Origin.has_of_mem_imports hm)) hm).trans hhas⟩
  have hanswer : ∀ n, P n ∧ (o.has n = true → g.units.contains n = true) →
      ∀ m ∈ o'.imports n, o'.sources.contains m = false →
        ∃ outcome, o'.answer sourceKind m = .ok outcome := by
    rintro n ⟨hn, hunit⟩ m hm hnew
    rw [hsame.imports hn] at hm
    obtain ⟨hnew', hanswer'⟩ := hanswer m (hsame.closed n hn m hm) hnew
    rw [hanswer']
    obtain ⟨x, hx, rfl⟩ : ∃ x ∈ exchanges, x.path = m := by
      rcases hcomplete.follows.imports n (hunit (Origin.has_of_mem_imports hm)) m hm with
        hm | ⟨-, hasked⟩
      · have hm : g.units.contains m = true := by simpa [hcomplete.done] using hm
        rcases hcomplete.follows.read m (hcomplete.follows.units m hm) with hgiven | hasked
        · rw [hnew'] at hgiven
          cases hgiven
        · exact hasked
      · exact hasked
    exact ⟨x.outcome, (hcomplete.follows.asked x hx).2.2⟩
  have hcost := h.cost_le (.start o) (.empty o) (List.nodup_dedup (g.units.keys.filter (P ·)))
    fun n hn => by
      rw [List.mem_dedup, List.mem_filter] at hn
      exact ⟨(g.units.contains_iff_mem_keys n).2 hn.1, by simp [start, Table.contains]⟩
  refine exists_gathers hclosed hanswer (.start o') (.empty o') (fun n hn => ?_)
    (List.nodup_dedup (g.units.keys.filter (P ·))) (fun n hn hhas => ?_) ?_
  · have hmem : o'.sources.contains n = true :=
      (o'.sources.contains_iff_mem_keys n).2 (by simpa [start] using hn)
    exact ⟨(hsources n hmem).1, fun _ => (hsources n hmem).2⟩
  · rw [hsame.has hn.1] at hhas
    refine .inr (List.mem_dedup.2 (List.mem_filter.2 ⟨?_, by simpa using hn.1⟩))
    exact (g.units.contains_iff_mem_keys n).1 (hn.2 hhas)
  · have hsum : ((g.units.keys.filter (P ·)).dedup.map o'.fanOut) =
        (g.units.keys.filter (P ·)).dedup.map o.fanOut := by
      refine List.map_congr_left fun n hn => hsame.fanOut ?_
      simpa using (List.mem_filter.1 (List.mem_dedup.1 hn)).2
    have hstart (t : Table String String) : (start t).pending.length = t.keys.length :=
      (Text.sorted_perm t.keys).length_eq
    rw [hsum, hstart]
    rw [hstart] at hcost
    omega

/-- What is left of the sources is gathered in no more steps. -/
theorem exists_gathers_of_agrees {P : String → Prop} {o' : Origin} (hagrees : o.Agrees P o')
    (hsources : ∀ n, o'.sources.contains n = true → P n)
    (hlength : o'.sources.keys.length ≤ o.sources.keys.length) {k : Nat} {g : Gathering}
    {exchanges : List Exchange} (h : Gathers o k (.start o.sources) exchanges g) :
    ∃ m ≤ k, ∃ exchanges' g', Gathers o' m (.start o'.sources) exchanges' g' := by
  obtain ⟨place, hcomplete⟩ := h.isComplete (.start o) (.empty o)
  have hcontains (n : String) (hn : P n) : o'.sources.contains n = o.sources.contains n := by
    unfold Table.contains
    rw [hagrees.sources n hn]
  exact exists_gathers_of_sameTexts hagrees.sameTexts
    (fun n hn hnew => ⟨hcontains n hn ▸ hnew, hagrees.answer n hn⟩) 0 hlength h fun n hn =>
      ⟨hsources n hn, hcomplete.contains_of_source (hcontains n (hsources n hn) ▸ hn)⟩

end Gathering

end LanguageServer.Toy
