import LanguageServer.Proofs.Compiler.Conversation
import LanguageServer.Proofs.Toy.Layout
import LanguageServer.Proofs.Toy.Shape
import Mathlib.Data.List.Basic

/-!
# What is gathered is sound

However the questions of the compiler are answered, each unit that it gathers is read from the
text that was handed over or served under its name.  So the trees of the units are sound, their
handles are apart, and what is found while reading lies in their texts.

## Main definitions

* `heard` — the text of a source, after some questions and answers.
* `Gathering.IsSound` — what is known while sources are gathered is sound.

## Main statements

* `Gathering.IsSound.parse`, `Gathering.IsSound.askAll` — taking up one name.
* `Gathering.isSound_gather` — what is gathered in the end.
-/

namespace LanguageServer

/-- The text that is served for a source in an answer, if there is one. -/
def Exchange.text? (x : Exchange) (name : String) : Option String :=
  if x.path = name then x.outcome.toOption else none

namespace Toy

/-! ## Texts -/

/-- The text of a source: the one that was handed over, else the first one that was served. -/
def heard (sources : Table String String) (exchanges : List Exchange) (name : String) :
    Option String :=
  (sources.find? name).or (exchanges.findSome? (Exchange.text? · name))

theorem heard_append (sources : Table String String) (exchanges more : List Exchange)
    (name : String) :
    heard sources (exchanges ++ more) name =
      (heard sources exchanges name).or (more.findSome? (Exchange.text? · name)) := by
  rw [heard, List.findSome?_append, ← Option.or_assoc]
  rfl

/-! ## Gathering -/

/-- A unit is sound for a text. -/
structure SourceFile.IsSound (text : List Char) (d : Table Int Declaration) (u : SourceFile) :
    Prop where
  tree : IsSoundIn u.source text d u.toUnit.root
  named : ∀ name ∈ u.names, name.IsTokenOf text

theorem SourceFile.names_resolved (rules : List Remapping) (u : SourceFile) :
    (u.resolved rules).names = u.names := by
  simp only [names, resolved, List.flatMap_map]
  exact List.flatMap_congr fun i _ => by cases i <;> rfl

namespace Gathering

variable {sources : Table String String} {exchanges more : List Exchange} {g g' : Gathering}

/-- The handles that the units declare. -/
def declared (units : Table String SourceFile) : List Int :=
  units.values.flatMap fun u => Node.declared [u.toUnit.root]

theorem declared_insert {units : Table String SourceFile} {name : String}
    (hnew : units.contains name = false) (u : SourceFile) :
    declared (units.insert name u) = declared units ++ Node.declared [u.toUnit.root] := by
  simp [declared, Table.values, Table.entries_insert_of_new hnew]

/-- A place lies in the text of a unit. -/
def Holds (g : Gathering) (l : SourceLocation) : Prop :=
  ∃ name text, g.units.contains name = true ∧ g.texts.find? name = some text ∧
    l.LiesIn name text.toList.length

/-- The texts are those that were heard, each unit is read from its text, the handles of units are
apart, and what is found are syntax errors at tokens of the texts. -/
structure IsSound (sources : Table String String) (exchanges : List Exchange) (g : Gathering) :
    Prop where
  texts : ∀ name, g.texts.find? name = heard sources exchanges name
  pending : ∀ name ∈ g.pending, g.texts.contains name = true
  counted : g.draft.IsCounted
  keys : g.units.keys.Nodup
  unit : ∀ name u, g.units.find? name = some u → u.source = name ∧
    ∃ text, g.texts.find? name = some text ∧ u.IsSound text.toList g.draft.declarations
  nodup : (declared g.units).Nodup
  given : ∀ h ∈ declared g.units, h ≤ g.draft.count
  found : ∀ f ∈ g.draft.findings, ∃ (source text : String) (e : SyntaxError), f = e.finding source ∧
    g.units.contains source = true ∧ g.texts.find? source = some text ∧ e.token.IsIn text.toList

namespace IsSound

theorem start (sources : Table String String) : IsSound sources [] (.start sources) where
  texts name := by simp [Gathering.start, heard]
  pending name hname := by
    simp only [Gathering.start, Text.mem_sorted] at hname
    exact (Table.contains_iff_mem_keys _ _).2 hname
  counted := Draft.isCounted_empty
  keys := .nil
  unit := fun _ _ => nofun
  nodup := .nil
  given := fun _ => nofun
  found := fun _ => nofun

/-- More texts may be heard, and other names may wait. -/
theorem hear (h : g.IsSound sources exchanges) (hunits : g'.units = g.units)
    (hdraft : g'.draft = g.draft)
    (hkept : ∀ name text, g.texts.find? name = some text → g'.texts.find? name = some text)
    (htexts : ∀ name, g'.texts.find? name = heard sources more name)
    (hpending : ∀ name ∈ g'.pending, name ∈ g.pending ∨ g'.texts.contains name = true) :
    g'.IsSound sources more where
  texts := htexts
  pending name hname := by
    refine (hpending name hname).elim (fun hname => ?_) id
    obtain ⟨text, htext⟩ := Option.isSome_iff_exists.1 (h.pending name hname)
    simp [Table.contains, hkept name text htext]
  counted := hdraft ▸ h.counted
  keys := hunits ▸ h.keys
  unit name u hu := by
    rw [hunits] at hu
    obtain ⟨hsource, text, htext, hsound⟩ := h.unit name u hu
    exact ⟨hsource, text, hkept name text htext, hdraft ▸ hsound⟩
  nodup := hunits ▸ h.nodup
  given := by
    rw [hunits, hdraft]
    exact h.given
  found f hf := by
    rw [hdraft] at hf
    obtain ⟨source, text, e, rfl, hcontains, htext, htoken⟩ := h.found f hf
    exact ⟨source, text, e, rfl, hunits ▸ hcontains, hkept source text htext, htoken⟩

/-- Asking for imports keeps what is known. -/
theorem askAll (names : List String) (h : g.IsSound sources exchanges)
    (hends : (g.askAll names).Ends more g') : g'.IsSound sources (exchanges ++ more) := by
  induction names generalizing g exchanges more with
  | nil =>
    cases hends
    rwa [List.append_nil]
  | cons name rest ih =>
    unfold Gathering.askAll at hends
    split at hends
    · next hknown =>
      refine ih (g := { g with pending := g.pending ++ [name] })
        (h.hear rfl rfl (fun _ _ htext => htext) h.texts fun other hother => ?_) hends
      rcases List.mem_append.1 hother with hother | hother
      · exact .inl hother
      · exact .inr (List.mem_singleton.1 hother ▸ hknown)
    · next hnew =>
      have hnone : g.texts.find? name = none := by simpa [Table.contains] using hnew
      cases hends with
      | @ask _ _ _ asked _ outcome hends =>
        have htexts (other : String) : heard sources (exchanges ++ [⟨sourceKind, name, outcome⟩]) other =
            (g.texts.find? other).or (if name = other then outcome.toOption else none) := by
          rw [heard_append, ← h.texts]
          simp [Exchange.text?]
        rw [← List.singleton_append, ← List.append_assoc]
        cases outcome with
        | error failure =>
          refine ih (h.hear rfl rfl (fun _ _ htext => htext) (fun other => ?_) fun _ => .inl) hends
          rw [htexts]
          simp [Except.toOption]
        | ok text =>
          refine ih
            (g := { g with texts := g.texts.insert name text, pending := g.pending ++ [name] })
            (h.hear rfl rfl (fun other t ht => ?_) (fun other => ?_) fun other hother => ?_) hends
          · have hne : name ≠ other := by
              rintro rfl
              rw [hnone] at ht
              cases ht
            simpa [hne] using ht
          · rw [htexts, Table.find?_insert]
            by_cases heq : name = other
            · subst heq
              simp [hnone, Except.toOption]
            · simp [heq]
          · rcases List.mem_append.1 hother with hother | hother
            · exact .inl hother
            · obtain rfl := List.mem_singleton.1 hother
              exact .inr (by simp [Table.contains])

/-- Parsing a source whose text is known adds a unit that is sound. -/
theorem parse (h : g.IsSound sources exchanges) (rules : List Remapping) {name : String}
    (hknown : g.texts.contains name = true) (hnew : g.units.contains name = false) :
    (g.parse rules name).2.IsSound sources exchanges := by
  obtain ⟨text, htext⟩ := Option.isSome_iff_exists.1 hknown
  obtain ⟨htree, hnamed, hgrows⟩ := parseFile_sound name text h.counted
  have hread : g.parse rules name =
      ((parseFile name text g.draft).1.resolved rules,
        { g with
          units := g.units.insert name ((parseFile name text g.draft).1.resolved rules)
          draft := (parseFile name text g.draft).2 }) := by
    simp only [Gathering.parse, htext, Option.getD_some]
  rw [hread]
  have hsource := source_parseFile name text g.draft
  generalize (parseFile name text g.draft).2 = draft at *
  generalize (parseFile name text g.draft).1 = u at *
  have hresolved := htree.of_bare (u.bare_resolved rules)
  have hdeclared := declared_insert hnew (u.resolved rules)
  exact
    { texts := h.texts
      pending := h.pending
      counted := hgrows.counted h.counted
      keys := Table.nodup_keys_insert _ _ _ h.keys
      unit := fun other v hv => by
        rw [Table.find?_insert] at hv
        split at hv
        · next heq =>
          subst heq
          obtain rfl := Option.some.inj hv
          refine ⟨hsource, text, htext, fun n hn => ?_, u.names_resolved rules ▸ hnamed⟩
          exact hsource ▸ hresolved.sound n hn
        · obtain ⟨hsource, t, ht, hsound⟩ := h.unit other v hv
          exact ⟨hsource, t, ht, fun n hn => (hsound.tree n hn).mono (hgrows.keeps h.counted),
            hsound.named⟩
      nodup := by
        rw [hdeclared]
        refine List.nodup_append.2 ⟨h.nodup, hresolved.nodup, fun x hx y hy => ?_⟩
        have := h.given x hx
        have := hresolved.given y hy
        omega
      given := fun x hx => by
        rw [hdeclared] at hx
        rcases List.mem_append.1 hx with hx | hx
        · exact Int.le_trans (h.given x hx) hgrows.count
        · exact (hresolved.given x hx).2
      found := fun f hf => by
        rcases hgrows.found f hf with hf | hf
        · obtain ⟨source, t, e, rfl, hcontains, ht, htoken⟩ := h.found f hf
          exact ⟨source, t, e, rfl, (Table.contains_insert ..).2 (.inr hcontains), ht, htoken⟩
        · obtain ⟨e, rfl, htoken⟩ := hf
          exact ⟨name, text, e, rfl, (Table.contains_insert ..).2 (.inl rfl), htext, htoken⟩ }

/-- Taking up names keeps what is known. -/
theorem run (rules : List Remapping) (n : Nat) (h : g.IsSound sources exchanges)
    (hends : (g.run rules n).Ends more g') : g'.IsSound sources (exchanges ++ more) := by
  induction n generalizing g exchanges more with
  | zero =>
    unfold Gathering.run at hends
    split at hends
    · cases hends
      rwa [List.append_nil]
    · cases hends
  | succ n ih =>
    unfold Gathering.run at hends
    split at hends
    · cases hends
      rwa [List.append_nil]
    · next name rest hpending =>
      have htaken : IsSound sources exchanges { g with pending := rest } :=
        h.hear rfl rfl (fun _ _ htext => htext) h.texts fun other hother =>
          .inl (hpending ▸ List.mem_cons_of_mem _ hother)
      dsimp only at hends
      split at hends
      · exact ih htaken hends
      · next hnew =>
        have hknown : g.texts.contains name = true :=
          h.pending name (hpending ▸ List.mem_cons_self)
        have hparsed := htaken.parse rules hknown (by simpa using hnew)
        obtain ⟨first, g₁, second, rfl, hasked, hrun⟩ := hends.of_andThen
        rw [← List.append_assoc]
        exact ih (hparsed.askAll _ hasked) hrun

end IsSound

/-- What is gathered in the end is sound. -/
theorem isSound_gather {budget : Nat} {input : EngineInput}
    (hends : (gather budget input).Ends exchanges g) : g.IsSound input.sources exchanges :=
  (IsSound.start input.sources).run input.remappings budget hends

end Gathering

end Toy

end LanguageServer
