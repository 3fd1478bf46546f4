import LanguageServer.Workspace.Garbage
import Mathlib.Logic.Relation

/-!
# What a graph leads to

The walk over the import graph reaches exactly the names that some path of imports leads
to.

## Main statements

* `ImportGraph.mem_reach_iff` — what is reached from some names.
-/

namespace LanguageServer.ImportGraph

open Relation

/-- A name is imported by another one. -/
def Imports (g : ImportGraph) (n m : String) : Prop := m ∈ g.importsOf n

theorem importsOf_of_not_contains {g : ImportGraph} {n : String} (h : ¬ g.contains n = true) :
    g.importsOf n = [] := by
  have hnone : g.find? n = none := by simpa [Table.contains] using h
  simp [importsOf, hnone]

/-- Nothing is forgotten on the way. -/
theorem subset_reach (g : ImportGraph) (reached stack : List String) :
    ∀ n, n ∈ reached ∨ n ∈ stack → n ∈ g.reach reached stack := by
  induction reached, stack using reach.induct g with
  | case1 reached => simp [reach]
  | case2 reached name stack hknown ih =>
    intro n hn
    rw [reach, if_pos hknown]
    refine ih n ?_
    rcases hn with hn | hn
    · exact .inl hn
    · rcases List.mem_cons.1 hn with rfl | hn
      · exact .inl (by simpa using hknown)
      · exact .inr hn
  | case3 reached name stack hnew hgraph ih =>
    intro n hn
    rw [reach, if_neg hnew, if_pos hgraph]
    refine ih n ?_
    simp only [List.mem_cons, List.mem_append] at hn ⊢
    grind
  | case4 reached name stack hnew hgraph ih =>
    intro n hn
    rw [reach, if_neg hnew, if_neg hgraph]
    refine ih n ?_
    simp only [List.mem_cons] at hn ⊢
    grind

/-- Only what the graph leads to is reached. -/
theorem reach_sound (g : ImportGraph) (reached stack : List String) :
    ∀ n ∈ g.reach reached stack, n ∈ reached ∨ ∃ m ∈ stack, ReflTransGen g.Imports m n := by
  induction reached, stack using reach.induct g with
  | case1 reached => simp [reach]
  | case2 reached name stack hknown ih =>
    intro n hn
    rw [reach, if_pos hknown] at hn
    exact (ih n hn).imp_right fun ⟨m, hm, hpath⟩ => ⟨m, List.mem_cons_of_mem _ hm, hpath⟩
  | case3 reached name stack hnew hgraph ih =>
    intro n hn
    rw [reach, if_neg hnew, if_pos hgraph] at hn
    rcases ih n hn with hn | ⟨m, hm, hpath⟩
    · rcases List.mem_cons.1 hn with rfl | hn
      · exact .inr ⟨n, List.mem_cons_self, .refl⟩
      · exact .inl hn
    · rcases List.mem_append.1 hm with hm | hm
      · exact .inr ⟨name, List.mem_cons_self, .head (List.mem_reverse.1 hm) hpath⟩
      · exact .inr ⟨m, List.mem_cons_of_mem _ hm, hpath⟩
  | case4 reached name stack hnew hgraph ih =>
    intro n hn
    rw [reach, if_neg hnew, if_neg hgraph] at hn
    rcases ih n hn with hn | ⟨m, hm, hpath⟩
    · rcases List.mem_cons.1 hn with rfl | hn
      · exact .inr ⟨n, List.mem_cons_self, .refl⟩
      · exact .inl hn
    · exact .inr ⟨m, List.mem_cons_of_mem _ hm, hpath⟩

/-- What is reached imports only what is reached, if that holds but for what is on the stack. -/
theorem reach_closed (g : ImportGraph) (reached stack : List String)
    (h : ∀ n ∈ reached, ∀ m ∈ g.importsOf n, m ∈ reached ∨ m ∈ stack) :
    ∀ n ∈ g.reach reached stack, ∀ m ∈ g.importsOf n, m ∈ g.reach reached stack := by
  induction reached, stack using reach.induct g with
  | case1 reached =>
    intro n hn m hm
    rw [reach] at hn ⊢
    simpa using h n hn m hm
  | case2 reached name stack hknown ih =>
    rw [reach, if_pos hknown]
    refine ih fun n hn m hm => ?_
    rcases h n hn m hm with hm | hm
    · exact .inl hm
    · rcases List.mem_cons.1 hm with rfl | hm
      · exact .inl (by simpa using hknown)
      · exact .inr hm
  | case3 reached name stack hnew hgraph ih =>
    rw [reach, if_neg hnew, if_pos hgraph]
    refine ih fun n hn m hm => ?_
    rcases List.mem_cons.1 hn with rfl | hn
    · exact .inr (List.mem_append_left _ (List.mem_reverse.2 hm))
    · have := h n hn m hm
      simp only [List.mem_cons, List.mem_append] at this ⊢
      grind
  | case4 reached name stack hnew hgraph ih =>
    rw [reach, if_neg hnew, if_neg hgraph]
    refine ih fun n hn m hm => ?_
    rcases List.mem_cons.1 hn with rfl | hn
    · rw [importsOf_of_not_contains hgraph] at hm
      cases hm
    · have := h n hn m hm
      simp only [List.mem_cons] at this ⊢
      grind

/-- Exactly those names are reached that the graph leads to. -/
theorem mem_reach_iff (g : ImportGraph) (names : List String) (n : String) :
    n ∈ g.reach [] names ↔ ∃ m ∈ names, ReflTransGen g.Imports m n := by
  constructor
  · intro hn
    simpa using reach_sound g [] names n hn
  · rintro ⟨m, hm, hpath⟩
    induction hpath with
    | refl => exact subset_reach g [] names m (.inr hm)
    | tail _ himport ih => exact reach_closed g [] names (by simp) _ ih _ himport

end LanguageServer.ImportGraph
