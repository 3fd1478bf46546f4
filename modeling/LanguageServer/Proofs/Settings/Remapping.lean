import LanguageServer.Settings.Remapping
import Mathlib.Data.List.Induction
import Mathlib.Data.Prod.Lex
import Mathlib.Logic.Equiv.Fin.Rotate

/-!
# The choice of a remapping

Of the rules that apply to an import, the one with the greatest rank is taken: the longest
context, then the longest lead.  Rules of one rank that apply to the same import have the
same context and the same lead, because both begin the same text.  So the order of the
rules matters only where it says which of two rules with one context and one lead is the
later one.

## Main definitions

* `Remapping.rank` — how specific a rule is.
* `Remapping.IsChosen` — the last rule of the greatest rank among those that apply.
* `Remapping.Rearranges` — another order that keeps rules with one context and lead in theirs.

## Main statements

* `Remapping.IsChosen.choose_eq` — the search finds the rule that is chosen.
* `Remapping.context_and_lead_eq` — rules of one rank that apply differ in their targets only.
* `remapPath_exact` — how an import path is rewritten.
-/

namespace LanguageServer

namespace Remapping

variable {rules : List Remapping} {importer path : String} {r r' : Remapping}

/-- How specific a rule is: by the length of its context, then of its lead. -/
def rank (r : Remapping) : ℕ ×ₗ ℕ := toLex (r.context.length, r.lead.length)

theorem asSpecificAs_iff : r.asSpecificAs r' = true ↔ r'.rank ≤ r.rank := by
  simp [asSpecificAs, rank, Prod.Lex.toLex_le_toLex]

/-- A rule stands at a place of a list of rules and applies, no rule that applies has a greater
rank, and none of the same rank stands behind it. -/
structure IsChosen (rules : List Remapping) (importer path : String) (i : ℕ) (r : Remapping) :
    Prop where
  found : rules[i]? = some r
  applies : r.appliesTo importer path = true
  last : ∀ j r', rules[j]? = some r' → r'.appliesTo importer path = true →
    r'.rank < r.rank ∨ r'.rank = r.rank ∧ j ≤ i

/-- There is only one such rule. -/
theorem IsChosen.unique {i j : ℕ} (h : IsChosen rules importer path i r)
    (h' : IsChosen rules importer path j r') : r = r' := by
  have hij : i = j := by
    rcases h.last j r' h'.found h'.applies with hlt | ⟨heq, hle⟩
    · rcases h'.last i r h.found h.applies with hlt' | ⟨heq', -⟩
      · exact absurd hlt' hlt.asymm
      · exact absurd hlt (heq' ▸ lt_irrefl _)
    · rcases h'.last i r h.found h.applies with hlt' | ⟨-, hle'⟩
      · exact absurd hlt' (heq ▸ lt_irrefl _)
      · exact le_antisymm hle' hle
  subst hij
  exact Option.some.inj (h.found.symm.trans h'.found)

/-! ## The search -/

/-- The better one of the rule found so far and the next one. -/
def prefer (importer path : String) (best : Option Remapping) (r : Remapping) : Option Remapping :=
  if !r.appliesTo importer path then best
  else
    match best with
    | none => some r
    | some b => some (if r.asSpecificAs b then r else b)

theorem choose_eq_foldl (importer path : String) (best : Option Remapping)
    (rules : List Remapping) :
    choose importer path best rules = rules.foldl (prefer importer path) best := by
  induction rules generalizing best with
  | nil => rfl
  | cons r rest ih =>
    rw [List.foldl_cons, ← ih]
    cases happlies : r.appliesTo importer path <;> cases best <;> simp [choose, prefer, happlies]

theorem choose_concat (importer path : String) (rules : List Remapping) (r : Remapping) :
    choose importer path none (rules ++ [r]) =
      prefer importer path (choose importer path none rules) r := by
  rw [choose_eq_foldl, choose_eq_foldl, List.foldl_append]
  rfl

theorem choose_concat_of_not_applies (h : r.appliesTo importer path = false) :
    choose importer path none (rules ++ [r]) = choose importer path none rules := by
  simp [choose_concat, prefer, h]

theorem choose_concat_of_applies (h : r.appliesTo importer path = true) :
    choose importer path none (rules ++ [r]) =
      match choose importer path none rules with
      | none => some r
      | some b => some (if r.asSpecificAs b then r else b) := by
  simp [choose_concat, prefer, h]

/-- What stands in a list with one more member. -/
theorem getElem?_concat_eq_some {α : Type} {l : List α} {a b : α} {i : ℕ} :
    (l ++ [a])[i]? = some b ↔ l[i]? = some b ∨ i = l.length ∧ a = b := by
  rcases Nat.lt_trichotomy i l.length with hlt | rfl | hlt
  · rw [List.getElem?_append_left hlt]
    simp [hlt.ne]
  · simp
  · rw [List.getElem?_append_right hlt.le]
    simp [hlt.ne', List.getElem?_eq_none hlt.le, Nat.sub_ne_zero_of_lt hlt]

/-- One more rule leaves the choice, if it does not apply or has a smaller rank. -/
theorem IsChosen.concat {i : ℕ} (h : IsChosen rules importer path i r)
    (hless : r'.appliesTo importer path = true → r'.rank < r.rank) :
    IsChosen (rules ++ [r']) importer path i r where
  found := getElem?_concat_eq_some.2 (.inl h.found)
  applies := h.applies
  last j x hx happlies := by
    rcases getElem?_concat_eq_some.1 hx with hx | ⟨-, rfl⟩
    · exact h.last j x hx happlies
    · exact .inl (hless happlies)

/-- One more rule is chosen, if it applies and none before it that applies has a greater rank. -/
theorem isChosen_concat (happlies : r.appliesTo importer path = true)
    (hgreatest : ∀ x ∈ rules, x.appliesTo importer path = true → x.rank ≤ r.rank) :
    IsChosen (rules ++ [r]) importer path rules.length r where
  found := getElem?_concat_eq_some.2 (.inr ⟨rfl, rfl⟩)
  applies := happlies
  last j x hx hxapplies := by
    rcases getElem?_concat_eq_some.1 hx with hx | ⟨rfl, rfl⟩
    · obtain ⟨hlt, -⟩ := List.getElem?_eq_some_iff.1 hx
      rcases (hgreatest x (List.mem_of_getElem? hx) hxapplies).lt_or_eq with hless | heq
      · exact .inl hless
      · exact .inr ⟨heq, hlt.le⟩
    · exact .inr ⟨rfl, le_rfl⟩

theorem IsChosen.rank_le {i : ℕ} (h : IsChosen rules importer path i r) :
    ∀ x ∈ rules, x.appliesTo importer path = true → x.rank ≤ r.rank := by
  intro x hx happlies
  obtain ⟨j, hj⟩ := List.getElem?_of_mem hx
  rcases h.last j x hj happlies with hlt | ⟨heq, -⟩
  · exact hlt.le
  · exact heq.le

/-- What the search finds: nothing if no rule applies, else the rule that is chosen. -/
theorem choose_cases (rules : List Remapping) (importer path : String) :
    choose importer path none rules = none ∧ (∀ r ∈ rules, r.appliesTo importer path = false) ∨
      ∃ i r, choose importer path none rules = some r ∧ IsChosen rules importer path i r := by
  induction rules using List.reverseRecOn with
  | nil => exact .inl ⟨rfl, by simp⟩
  | append_singleton rules r ih =>
    cases happlies : r.appliesTo importer path with
    | false =>
      rw [choose_concat_of_not_applies happlies]
      rcases ih with ⟨hnone, hall⟩ | ⟨i, b, hb, hchosen⟩
      · refine .inl ⟨hnone, fun x hx => ?_⟩
        rcases List.mem_append.1 hx with hx | hx
        · exact hall x hx
        · exact List.mem_singleton.1 hx ▸ happlies
      · exact .inr ⟨i, b, hb, hchosen.concat fun h => by simp [happlies] at h⟩
    | true =>
      rw [choose_concat_of_applies happlies]
      right
      rcases ih with ⟨hnone, hall⟩ | ⟨i, b, hb, hchosen⟩
      · refine ⟨rules.length, r, by rw [hnone], isChosen_concat happlies fun x hx h => ?_⟩
        simp [hall x hx] at h
      · rw [hb]
        cases hspecific : r.asSpecificAs b with
        | true =>
          have hle : b.rank ≤ r.rank := asSpecificAs_iff.1 hspecific
          exact ⟨rules.length, r, by simp [hspecific], isChosen_concat happlies fun x hx h =>
            (hchosen.rank_le x hx h).trans hle⟩
        | false =>
          have hlt : r.rank < b.rank := not_le.1 fun hle => by
            simp [asSpecificAs_iff.2 hle] at hspecific
          exact ⟨i, b, by simp [hspecific], hchosen.concat fun _ => hlt⟩

theorem choose_eq_none (h : ∀ r ∈ rules, r.appliesTo importer path = false) :
    choose importer path none rules = none := by
  rcases choose_cases rules importer path with ⟨hnone, -⟩ | ⟨i, r, -, hchosen⟩
  · exact hnone
  · have hfalse := h r (List.mem_of_getElem? hchosen.found)
    rw [hchosen.applies] at hfalse
    cases hfalse

theorem exists_isChosen (hr : r ∈ rules) (happlies : r.appliesTo importer path = true) :
    ∃ i b, IsChosen rules importer path i b := by
  rcases choose_cases rules importer path with ⟨-, hall⟩ | ⟨i, b, -, hchosen⟩
  · rw [hall r hr] at happlies
    cases happlies
  · exact ⟨i, b, hchosen⟩

/-- The search finds the rule that is chosen. -/
theorem IsChosen.choose_eq {i : ℕ} (h : IsChosen rules importer path i r) :
    choose importer path none rules = some r := by
  rcases choose_cases rules importer path with ⟨-, hall⟩ | ⟨j, b, hb, hchosen⟩
  · have hfalse := hall r (List.mem_of_getElem? h.found)
    rw [h.applies] at hfalse
    cases hfalse
  · rw [hb, hchosen.unique h]

/-! ## The order of the rules -/

/-- Two texts of one length that begin the same text are the same. -/
theorem eq_of_beginsWith {s t text : String} (hs : Text.beginsWith s text = true)
    (ht : Text.beginsWith t text = true) (hlength : s.length = t.length) : s = t := by
  rw [Text.beginsWith_iff] at hs ht
  rw [← String.length_toList, ← String.length_toList] at hlength
  exact String.toList_inj.1
    ((List.prefix_of_prefix_length_le hs ht hlength.le).eq_of_length hlength)

/-- Rules of one rank that apply to one import have the same context and the same lead. -/
theorem context_and_lead_eq (h : r.appliesTo importer path = true)
    (h' : r'.appliesTo importer path = true) (hrank : r.rank = r'.rank) :
    r.context = r'.context ∧ r.lead = r'.lead := by
  rw [appliesTo, Bool.and_eq_true] at h h'
  obtain ⟨hcontext, hlead⟩ := Prod.mk.inj (toLex.injective hrank)
  exact ⟨eq_of_beginsWith h.1 h'.1 hcontext, eq_of_beginsWith h.2 h'.2 hlead⟩

/-- The rules in another order, in which those with one context and one lead keep theirs. -/
def Rearranges (rules rules' : List Remapping) : Prop :=
  ∃ σ : Fin rules.length ≃ Fin rules'.length,
    (∀ i, rules'.get (σ i) = rules.get i) ∧
    ∀ i j, i < j → (rules.get i).context = (rules.get j).context →
      (rules.get i).lead = (rules.get j).lead → σ i < σ j

/-- A rule that is chosen is chosen in another order too. -/
theorem IsChosen.rearrange {rules' : List Remapping} {i : ℕ}
    (h : IsChosen rules importer path i r) (horder : Rearranges rules rules') :
    ∃ i', IsChosen rules' importer path i' r := by
  obtain ⟨σ, hsame, hkeeps⟩ := horder
  obtain ⟨hi, hr⟩ := List.getElem?_eq_some_iff.1 h.found
  refine ⟨σ ⟨i, hi⟩, List.getElem?_eq_some_iff.2 ⟨(σ ⟨i, hi⟩).isLt, (hsame _).trans hr⟩,
    h.applies, fun j' x hx happlies => ?_⟩
  -- The other rule has a place in the given order too.
  obtain ⟨hj', hx⟩ := List.getElem?_eq_some_iff.1 hx
  obtain ⟨⟨j, hj⟩, hσ⟩ := σ.surjective ⟨j', hj'⟩
  have hold : rules.get ⟨j, hj⟩ = x := by
    rw [← hsame, hσ]
    exact hx
  rcases h.last j x (List.getElem?_eq_some_iff.2 ⟨hj, hold⟩) happlies with hlt | ⟨hrank, hle⟩
  · exact .inl hlt
  · refine .inr ⟨hrank, ?_⟩
    rcases hle.lt_or_eq with hlt | rfl
    · obtain ⟨hcontext, hlead⟩ := context_and_lead_eq happlies h.applies hrank
      have hbefore := hkeeps ⟨j, hj⟩ ⟨i, hi⟩ hlt
        (by rw [hold, hcontext, ← hr]; rfl) (by rw [hold, hlead, ← hr]; rfl)
      rw [hσ] at hbefore
      exact hbefore.le
    · rw [hσ]

theorem mem_of_rearranges {rules' : List Remapping} (h : Rearranges rules rules')
    (hr : r ∈ rules') : r ∈ rules := by
  obtain ⟨σ, hsame, -⟩ := h
  obtain ⟨i, rfl⟩ := List.get_of_mem hr
  rw [← σ.apply_symm_apply i, hsame]
  exact List.get_mem rules _

end Remapping

theorem remapPath_of_not_applies {rules : List Remapping} {importer path : String}
    (h : ∀ r ∈ rules, r.appliesTo importer path = false) :
    remapPath rules importer path = path := by
  rw [remapPath, Remapping.choose_eq_none h]

theorem remapPath_of_isChosen {rules : List Remapping} {importer path : String} {i : ℕ}
    {r : Remapping} (h : Remapping.IsChosen rules importer path i r) :
    remapPath rules importer path = normalisePath (r.apply path) := by
  rw [remapPath, h.choose_eq]

/-- An import path is left alone, or rewritten by a rule. -/
theorem remapPath_cases (rules : List Remapping) (importer path : String) :
    remapPath rules importer path = path ∨
      ∃ r ∈ rules, remapPath rules importer path = normalisePath (r.apply path) := by
  rcases Remapping.choose_cases rules importer path with ⟨hnone, -⟩ | ⟨i, r, hsome, hchosen⟩
  · exact .inl (by rw [remapPath, hnone])
  · exact .inr ⟨r, List.mem_of_getElem? hchosen.found, by rw [remapPath, hsome]⟩

/-- How an import path is rewritten.  A path that no rule applies to is left alone.  Else the rule
of the greatest rank among those that apply, the last one if there are several, is applied, and the
path is brought into normal form.  The order of the rules does not matter, but for rules that have
the same context and the same lead. -/
theorem remapPath_exact (rules : List Remapping) (importer path : String) :
    ((∀ r ∈ rules, r.appliesTo importer path = false) → remapPath rules importer path = path) ∧
    ((∃ r ∈ rules, r.appliesTo importer path = true) →
      ∃ i r, Remapping.IsChosen rules importer path i r ∧
        remapPath rules importer path = normalisePath (r.apply path)) ∧
    ∀ rules', Remapping.Rearranges rules rules' →
      remapPath rules' importer path = remapPath rules importer path := by
  refine ⟨remapPath_of_not_applies, ?_, fun rules' horder => ?_⟩
  · rintro ⟨r, hr, happlies⟩
    obtain ⟨i, b, hchosen⟩ := Remapping.exists_isChosen hr happlies
    exact ⟨i, b, hchosen, remapPath_of_isChosen hchosen⟩
  · by_cases hsome : ∃ r ∈ rules, r.appliesTo importer path = true
    · obtain ⟨r, hr, happlies⟩ := hsome
      obtain ⟨i, b, hchosen⟩ := Remapping.exists_isChosen hr happlies
      obtain ⟨i', hchosen'⟩ := hchosen.rearrange horder
      rw [remapPath_of_isChosen hchosen, remapPath_of_isChosen hchosen']
    · have hnone : ∀ r ∈ rules, r.appliesTo importer path = false := fun r hr =>
        Bool.eq_false_iff.2 fun happlies => hsome ⟨r, hr, happlies⟩
      rw [remapPath_of_not_applies hnone, remapPath_of_not_applies fun r hr =>
        hnone r (Remapping.mem_of_rearranges horder hr)]

/-- Two rules for one lead, one of them for a source below another directory as well. -/
def crossingRules : List Remapping :=
  [⟨"", "lib/", "vendor/"⟩, ⟨"", "lib/", "./vendor//new/"⟩, ⟨"/other/", "li", "elsewhere"⟩]

/-- The rule for the other directory put first. -/
def crossedRules : List Remapping :=
  [⟨"/other/", "li", "elsewhere"⟩, ⟨"", "lib/", "vendor/"⟩, ⟨"", "lib/", "./vendor//new/"⟩]

/-- The later one of two rules for one lead is taken, in both orders, and the path is brought into
normal form. -/
theorem remapPath_exact_crossing :
    remapPath crossingRules "/project/a.toy" "lib/x.toy" = "vendor/new/x.toy" ∧
    (∃ i r, Remapping.IsChosen crossingRules "/project/a.toy" "lib/x.toy" i r) ∧
    remapPath crossedRules "/project/a.toy" "lib/x.toy" =
      remapPath crossingRules "/project/a.toy" "lib/x.toy" := by
  obtain ⟨-, hchosen, horder⟩ := remapPath_exact crossingRules "/project/a.toy" "lib/x.toy"
  have happlies : ∃ r ∈ crossingRules, r.appliesTo "/project/a.toy" "lib/x.toy" = true := by
    decide +kernel
  have hrearranges : Remapping.Rearranges crossingRules crossedRules :=
    ⟨(finRotate 3 : Fin 3 ≃ Fin 3), by decide +kernel, by decide +kernel⟩
  obtain ⟨i, r, h, -⟩ := hchosen happlies
  exact ⟨by decide +kernel, ⟨i, r, h⟩, horder _ hrearranges⟩

end LanguageServer
