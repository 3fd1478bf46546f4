import LanguageServer.Proofs.Workspace.Locality
import LanguageServer.Proofs.Workspace.Settling

/-!
# What an eviction leaves to see

What is left after an eviction is compiled anew, and then the sources that open documents
need are the same as before but for the handles.  So nothing changes in an open document.

## Main statements

* `Workspace.exists_mirrors_of_sameTexts` — compilations of the same texts mirror each other on them.
* `Workspace.exists_mirrors` — so do those that agree on some sources.
* `Workspace.IsSettled.exists_mirrors_collect` — so do those before and after an eviction.
-/

namespace LanguageServer

open Toy

theorem Toy.Origin.Agrees.failure? {P : String → Prop} {o o' : Origin} (h : o.Agrees P o') {n : String}
    (hn : P n) : o'.failure? n = o.failure? n := by
  unfold Origin.failure?
  rw [h.sources n hn, h.answer n hn]

namespace Workspace

variable {env : Environment} {budget : Nat} {ws ws' : Workspace}
  {uris uris' sources sources' : Table String String} {k k' : Knowledge} {P : String → Prop}

/-- Compilations of what two gatherings have in common are the same but for the handles. -/
theorem IsGathered.mirrors {exchanges exchanges' : List Exchange} {g g' : Gathering}
    {place place' : String → Int} (h : IsGathered env budget ws k sources exchanges g)
    (h' : IsGathered env budget ws' k' sources' exchanges' g')
    (hshared : Gathering.Shared P (ws.origin env sources) (ws'.origin env sources') place place'
      exchanges exchanges' g g')
    (hfailure : ∀ n, P n → (ws'.origin env sources').failure? n = (ws.origin env sources).failure? n)
    (huris : ∀ n, P n → (Workspace.empty.absorb k').uriFor n = (Workspace.empty.absorb k).uriFor n) :
    k.Mirrors hshared.translation k' where
  program := by
    rw [h.program, h'.program]
    exact hshared.mirrors
  formed := h.program ▸ Gathering.isFormed_bindAll hshared.left
  formed' := h'.program ▸ Gathering.isFormed_bindAll hshared.right
  index n hn := by
    have hsources : k'.sources.find? n = k.sources.find? n := by
      rw [h.find?_sources hshared.left hn.2,
        h'.find?_sources hshared.right ((hshared.gathered n hn.1).trans hn.2),
        hshared.same.text? n hn.1]
    show (k'.sources.find? n).map _ = (k.sources.find? n).map _
    rw [hsources]
  uri n hn := by simp only [Knowledge.view, Workspace.view, huris n hn.1]
  failure n hn u hu m hm path hpath := by
    rw [h.program] at hu
    have hkey := (Gathering.yields_bindAll hshared.left hu).2.imports m hm path hpath
    rw [h.find?_readFailures hshared.left hn.2 hkey,
      h'.find?_readFailures hshared.right ((hshared.gathered n hn.1).trans hn.2)
        (hshared.same.imports hn.1 ▸ hkey),
      hfailure _ (hshared.same.closed n hn.1 _ hkey)]

/-- Compilations of the same texts, which lead to no others, are the same on them but for the handles. -/
theorem exists_mirrors_of_sameTexts (henv : env.IsToy budget) (hlearn : ws.learn env = .ok k)
    (hlearn' : ws'.learn env = .ok k')
    (hnames : nameDocuments .empty .empty ws.store.toList = (uris, .ok sources))
    (hnames' : nameDocuments .empty .empty ws'.store.toList = (uris', .ok sources'))
    (hsame : (ws.origin env sources).SameTexts P (ws'.origin env sources'))
    (hfailure : ∀ n, P n → (ws'.origin env sources').failure? n = (ws.origin env sources).failure? n)
    (huris : ∀ n, P n → (Workspace.empty.absorb k').uriFor n = (Workspace.empty.absorb k).uriFor n)
    (hcompiled : ∀ n, P n → k'.program.units.contains n = k.program.units.contains n)
    (hnameless : k.program.units.contains "" = true ∨ k'.program.units.contains "" = true → P "") :
    ∃ r, (∀ n, r.Near n ↔ P n ∧ k.program.units.contains n = true) ∧ k.Mirrors r k' := by
  obtain ⟨_, exchanges, g, hgathered⟩ := exists_isGathered henv hlearn
  obtain ⟨_, exchanges', g', hgathered'⟩ := exists_isGathered henv hlearn'
  obtain ⟨-, hown⟩ := Prod.mk.inj (hnames.symm.trans hgathered.named)
  obtain rfl := Except.ok.inj hown
  obtain ⟨-, hown'⟩ := Prod.mk.inj (hnames'.symm.trans hgathered'.named)
  obtain rfl := Except.ok.inj hown'
  obtain ⟨place, hcomplete⟩ := hgathered.isComplete
  obtain ⟨place', hcomplete'⟩ := hgathered'.isComplete
  simp only [hgathered.program, hgathered'.program, Gathering.contains_bindAll]
    at hcompiled hnameless ⊢
  have hshared : Gathering.Shared P (ws.origin env sources) (ws'.origin env sources') place place'
      exchanges exchanges' g g' := ⟨hsame, hcomplete, hcomplete', hcompiled, hnameless⟩
  exact ⟨hshared.translation, fun _ => .rfl, hgathered.mirrors hgathered' hshared hfailure huris⟩

/-- Compilations that agree on some sources, which lead to no others, are the same on them but for the
handles. -/
theorem exists_mirrors (henv : env.IsToy budget) (hlearn : ws.learn env = .ok k)
    (hlearn' : ws'.learn env = .ok k')
    (hnames : nameDocuments .empty .empty ws.store.toList = (uris, .ok sources))
    (hnames' : nameDocuments .empty .empty ws'.store.toList = (uris', .ok sources'))
    (hagrees : (ws.origin env sources).Agrees P (ws'.origin env sources'))
    (huris : ∀ n, P n → uris'.find? n = uris.find? n)
    (hcompiled : ∀ n, P n → k'.program.units.contains n = k.program.units.contains n)
    (hnameless : k.program.units.contains "" = true ∨ k'.program.units.contains "" = true → P "") :
    ∃ r, (∀ n, r.Near n ↔ P n ∧ k.program.units.contains n = true) ∧ k.Mirrors r k' := by
  refine exists_mirrors_of_sameTexts henv hlearn hlearn' hnames hnames' hagrees.sameTexts
    (fun n hn => hagrees.failure? hn) (fun n hn => ?_) hcompiled hnameless
  obtain ⟨_, hown⟩ := named_of_learn hlearn
  obtain ⟨_, hown'⟩ := named_of_learn hlearn'
  obtain rfl := (Prod.mk.inj (hnames.symm.trans hown)).1
  obtain rfl := (Prod.mk.inj (hnames'.symm.trans hown')).1
  have hsame : (Workspace.empty.absorb k').uris.find? n = (Workspace.empty.absorb k).uris.find? n :=
    huris n hn
  rw [uriFor, uriFor, hsame]

/-- A needed source is compiled exactly if it exists. -/
theorem contains_of_isNeeded_of_learn (henv : env.IsToy budget) (hformed : ws.store.IsFormed)
    (hlearn : ws.learn env = .ok k)
    (hnames : nameDocuments .empty .empty ws.store.toList = (uris, .ok sources)) {n : String}
    (hn : ws.IsNeeded env sources n) :
    k.program.units.contains n = (ws.origin env sources).has n := by
  obtain ⟨_, exchanges, g, hgathered⟩ := exists_isGathered henv hlearn
  obtain ⟨-, hsame⟩ := Prod.mk.inj (hnames.symm.trans hgathered.named)
  obtain rfl := Except.ok.inj hsame
  obtain ⟨place, hcomplete⟩ := hgathered.isComplete
  rw [hgathered.program, Gathering.contains_bindAll]
  exact contains_of_isNeeded hformed hnames hcomplete hn

/-- The text of a tracked document is handed over. -/
theorem contains_of_named (hformed : ws.store.IsFormed)
    (hnames : nameDocuments .empty .empty ws.store.toList = (uris, .ok sources)) {uri n : String}
    (htracked : ws.store.contains uri = true) (hname : sourceNameFor uri = .ok n) :
    sources.contains n = true := by
  obtain ⟨d, hd⟩ := Option.isSome_iff_exists.1 htracked
  have hentry := Table.mem_entries_of_find? hd
  refine (contains_texts_iff hnames n).2 (.inr ⟨d, List.mem_map_of_mem hentry, ?_⟩)
  rw [hformed.uri _ hentry]
  exact hname

/-- The source of a tracked document is compiled. -/
theorem contains_of_tracked (henv : env.IsToy budget) (hformed : ws.store.IsFormed)
    (hlearn : ws.learn env = .ok k) {uri n : String} (htracked : ws.store.contains uri = true)
    (hname : sourceNameFor uri = .ok n) : k.program.units.contains n = true := by
  obtain ⟨sources, exchanges, g, hgathered⟩ := exists_isGathered henv hlearn
  obtain ⟨place, hcomplete⟩ := hgathered.isComplete
  rw [hgathered.program, Gathering.contains_bindAll]
  exact hcomplete.contains_of_source (contains_of_named hformed hgathered.named htracked hname)

/-- Nothing is compiled but what the names of the documents lead to. -/
theorem compiled_within (henv : env.IsToy budget) (hlearn : ws.learn env = .ok k)
    (hnames : nameDocuments .empty .empty ws.store.toList = (uris, .ok sources))
    (hclosed : ∀ n, P n → ∀ m ∈ (ws.origin env sources).imports n, P m)
    (hsources : ∀ n, sources.contains n = true → P n) :
    ∀ n, k.program.units.contains n = true → P n := by
  obtain ⟨_, exchanges, g, hgathered⟩ := exists_isGathered henv hlearn
  obtain ⟨-, hsame⟩ := Prod.mk.inj (hnames.symm.trans hgathered.named)
  obtain rfl := Except.ok.inj hsame
  obtain ⟨_, -, hgathers⟩ := hgathered.gathers
  have hwithin := hgathers.within hclosed (.start _) (.empty _)
    (fun n hn => hsources n ((sources.contains_iff_mem_keys n).2 (by
      simpa [Gathering.start, Text.mem_sorted] using hn)))
    fun n hn => by simp [Gathering.start, Table.contains] at hn
  intro n hn
  rw [hgathered.program, Gathering.contains_bindAll] at hn
  exact hwithin n hn

/-- After an eviction an open document is compiled as before, but for the handles, together with all
that it needs and nothing else. -/
theorem IsSettled.exists_mirrors_collect (henv : env.IsToy budget) (h : ws.IsSettled env) {s : Snapshot}
    (hs : ws.snapshot = some s) {opened garbage : List String}
    (hopened : ws.store.openUris.mapM sourceNameFor = .ok opened)
    (hgarbage : unreachable ws.store ((importGraph s.program).reach [] opened) ws.store.toList =
      .ok garbage)
    {uri n : String} (hopen : uri ∈ ws.store.openUris) (hname : sourceNameFor uri = .ok n)
    (hws' : ws' = { ws with store := (ws.store.evict garbage).1 }) :
    ∃ k k', ws.learn env = .ok k ∧ ws'.learn env = .ok k' ∧
      ((k.program.units.contains "" = true → k'.program.units.contains "" = true) →
        ∃ r, k.Mirrors r k' ∧ r.Near n ∧ ∀ m, k'.program.units.contains m = true → r.Near m) := by
  subst hws'
  obtain ⟨uris, sources, hnames⟩ := exists_nameDocuments_of_unreachable hopened hgarbage
  have hremembers := h.remembers uris sources hnames
  have hreach := contains_reach_iff_isNeeded hremembers hs hopened
  have hleft := nameDocuments_evict h.formed hnames
    (fun uri hopen n hname => (hreach n).2 (isNeeded_of_isOpen hopen hname)) hgarbage
  have hsettled' := h.collect henv hs hopened hgarbage
  have hopenUris : (ws.store.evict garbage).1.openUris = ws.store.openUris :=
    DocumentStore.openUris_evict _ _
  obtain ⟨k, hlearn⟩ := hremembers.learns
    (DocumentStore.size_ne_zero_of_contains (h.formed.tracked uri hopen))
  obtain ⟨k', hlearn'⟩ := (hsettled'.remembers _ _ hleft).learns
    (DocumentStore.size_ne_zero_of_contains (hsettled'.formed.tracked uri (hopenUris ▸ hopen)))
  refine ⟨k, k', hlearn, hlearn', fun hnameless => ?_⟩
  have hagrees := agrees_restrict (ws.store.evict garbage).1 hreach
  have hneeded (n : String) :
      ({ ws with store := (ws.store.evict garbage).1 } : Workspace).IsNeeded env
        (sources.restrict (((importGraph s.program).reach [] opened).contains ·)) n ↔
        ws.IsNeeded env sources n := isNeeded_restrict_iff hopenUris hreach n
  have hcompiled (n : String) (hn : ws.IsNeeded env sources n) :
      k'.program.units.contains n = k.program.units.contains n := by
    rw [contains_of_isNeeded_of_learn henv h.formed hlearn hnames hn,
      contains_of_isNeeded_of_learn henv hsettled'.formed hlearn' hleft ((hneeded n).2 hn),
      hagrees.has hn]
  have hwithin := compiled_within henv hlearn' hleft (fun n hn => hagrees.closed' hn) fun n hn => by
    rw [Table.contains_restrict, Bool.and_eq_true] at hn
    exact (hreach n).1 hn.1
  obtain ⟨r, hnear, hmirrors⟩ := exists_mirrors henv hlearn hlearn' hnames hleft hagrees
    (fun n hn => by rw [Table.find?_restrict, if_pos ((hreach n).2 hn)]) hcompiled
    fun hcontains => hwithin "" (hcontains.elim hnameless id)
  have hcontains := contains_of_tracked henv h.formed hlearn (h.formed.tracked uri hopen) hname
  exact ⟨r, hmirrors, (hnear n).2 ⟨isNeeded_of_isOpen hopen hname, hcontains⟩, fun m hm =>
    (hnear m).2 ⟨hwithin m hm, hcompiled m (hwithin m hm) ▸ hm⟩⟩

end Workspace

end LanguageServer
