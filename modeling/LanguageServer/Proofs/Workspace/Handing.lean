import LanguageServer.Proofs.Workspace.Collection
import LanguageServer.Proofs.Workspace.Denoting

/-!
# Handing over what was read

A source that a compilation reads from disk may be handed over instead, with the same text.
Then one more name waits at the start, and handles are given in another order; but the same
sources are gathered, and what is made of them is the same but for the handles.

## Main definitions

* `Workspace.knowledgeOf` — what is known from a conversation with the engine.
* `Origin.Hands` — one more text is handed over that was read before.

## Main statements

* `Gathering.Gathers.contains_of_served` — what is read is compiled.
* `Workspace.learn_mono` — a compilation that ends within a budget ends within a larger one.
* `Workspace.nameDocuments_track` — the names and texts with one more document.
* `Workspace.exists_mirrors_handed` — a source that was read may be handed over instead.
-/

namespace LanguageServer

open Toy

namespace Toy.Gathering

variable {o : Origin} {g g' : Gathering} {exchanges : List Exchange}

/-! ## What is read is compiled -/

/-- A source is parsed already, or it waits. -/
def IsKnown (g : Gathering) (name : String) : Prop := g.units.contains name = true ∨ name ∈ g.pending

/-- What is known stays known, and what is served gets known. -/
structure Adds (g : Gathering) (exchanges : List Exchange) (g' : Gathering) : Prop where
  kept : ∀ n, g.IsKnown n → g'.IsKnown n
  served : ∀ x ∈ exchanges, ∀ text, x.outcome = .ok text → g'.IsKnown x.path

namespace Adds

variable {g₁ : Gathering} {exchanges' : List Exchange}

theorem trans (h : Adds g exchanges g₁) (h' : Adds g₁ exchanges' g') :
    Adds g (exchanges ++ exchanges') g' where
  kept n hn := h'.kept n (h.kept n hn)
  served x hx text htext := by
    rcases List.mem_append.1 hx with hx | hx
    · exact h'.kept _ (h.served x hx text htext)
    · exact h'.served x hx text htext

/-- One more name waits. -/
theorem await (name : String) (texts : Table String String) :
    Adds g [] { g with texts, pending := g.pending ++ [name] } where
  kept _ hn := hn.imp id (List.mem_append_left _)
  served := nofun

theorem askAll {names : List String}
    (hask : (g.askAll names).converse o.answer = (exchanges, .ok g')) : Adds g exchanges g' := by
  induction names generalizing g exchanges with
  | nil =>
    obtain ⟨rfl, hg⟩ := Prod.mk.inj hask
    obtain rfl := Except.ok.inj hg
    exact ⟨fun _ hn => hn, nofun⟩
  | cons name rest ih =>
    unfold Gathering.askAll at hask
    split at hask
    · exact (await name g.texts).trans (ih hask)
    · unfold Compiling.converse at hask
      split at hask
      · cases (Prod.mk.inj hask).2
      · next outcome hanswer =>
        obtain ⟨rfl, hg⟩ := Prod.mk.inj hask
        cases outcome with
        | error failure =>
          have hrest := ih (Prod.ext rfl hg)
          refine ⟨hrest.kept, fun x hx text htext => ?_⟩
          rcases List.mem_cons.1 hx with rfl | hx
          · cases htext
          · exact hrest.served x hx text htext
        | ok text =>
          -- What was just read waits, and stays known while the others are asked for.
          have hadds := (await name (g.texts.insert name text)).trans (ih (Prod.ext rfl hg))
          refine ⟨hadds.kept, fun x hx text htext => ?_⟩
          rcases List.mem_cons.1 hx with rfl | hx
          · exact (ih (Prod.ext rfl hg)).kept _ (.inr (by simp))
          · exact hadds.served x hx text htext

theorem takes (h : Takes o g exchanges g') : Adds g exchanges g' := by
  cases h with
  | @skip name rest hpending hknown =>
    refine ⟨fun n hn => ?_, nofun⟩
    rcases hn with hn | hn
    · exact .inl hn
    · rw [hpending, List.mem_cons] at hn
      exact hn.imp (fun heq : n = name => heq ▸ hknown) id
  | @parse _ name rest _ hpending hnew hask =>
    have hparsed : Adds g [] (({ g with pending := rest } : Gathering).parse o.rules name).2 := by
      refine ⟨fun n hn => ?_, nofun⟩
      have hcontains : ((({ g with pending := rest } : Gathering).parse o.rules name).2.units.contains n =
          true) ↔ name = n ∨ g.units.contains n = true := Table.contains_insert ..
      rcases hn with hn | hn
      · exact .inl (hcontains.2 (.inr hn))
      · rw [hpending, List.mem_cons] at hn
        exact hn.imp (fun heq : n = name => hcontains.2 (.inl heq.symm)) id
    exact hparsed.trans (askAll hask)

end Adds

/-- What is read is compiled. -/
theorem Gathers.contains_of_served {n : Nat} (h : Gathers o n g exchanges g') {x : Exchange}
    (hx : x ∈ exchanges) {text : String} (htext : x.outcome = .ok text) :
    g'.units.contains x.path = true := by
  have hadds : Adds g exchanges g' ∧ g'.pending = [] := by
    clear hx
    induction h with
    | done hpending => exact ⟨⟨fun _ hn => hn, nofun⟩, hpending⟩
    | take htake _ ih => exact ⟨(Adds.takes htake).trans ih.1, ih.2⟩
  exact (hadds.1.served x hx text htext).resolve_right (by simp [hadds.2])

end Toy.Gathering

/-! ## Origins -/

namespace Toy.Origin

/-- One more text is handed over that was read before. -/
structure Hands (name text : String) (o o' : Origin) : Prop where
  rules : o'.rules = o.rules
  sources : o'.sources = o.sources.insert name text
  new : o.sources.contains name = false
  answer : ∀ n, o'.answer sourceKind n = o.answer sourceKind n
  served : o.answer sourceKind name = .ok (.ok text)

namespace Hands

variable {name text : String} {o o' : Origin}

/-- The name is the only one that is handed over in addition. -/
theorem find? (h : Hands name text o o') (n : String) :
    n = name ∧ o'.sources.find? n = some text ∧ o.sources.find? n = none ∧
        o.answer sourceKind n = .ok (.ok text) ∨
      o'.sources.find? n = o.sources.find? n := by
  rw [h.sources, Table.find?_insert]
  by_cases heq : name = n
  · subst heq
    exact .inl ⟨rfl, if_pos rfl, (Table.contains_eq_false_iff _ _).1 h.new, h.served⟩
  · exact .inr (if_neg heq)

theorem contains (h : Hands name text o o') {n : String} :
    o'.sources.contains n = true ↔ name = n ∨ o.sources.contains n = true := by
  rw [h.sources]
  exact Table.contains_insert ..

theorem sameTexts (h : Hands name text o o') : o.SameTexts (fun _ => True) o' where
  rules := h.rules
  text? n _ := by
    unfold Origin.text?
    rw [h.answer]
    rcases h.find? n with ⟨-, hown, hnone, hserved⟩ | hsame
    · rw [hown, hnone, hserved]
    · rw [hsame]
  closed _ _ _ _ := trivial

theorem failure? (h : Hands name text o o') (n : String) : o'.failure? n = o.failure? n := by
  unfold Origin.failure?
  rw [h.answer]
  rcases h.find? n with ⟨-, hown, hnone, hserved⟩ | hsame
  · rw [hown, hnone, hserved]
    rfl
  · rw [hsame]

variable {k : Nat} {g g' : Gathering} {exchanges exchanges' : List Exchange}

/-- Gathering takes one more step. -/
theorem exists_gathers (h : Hands name text o o')
    (hgathers : Gathering.Gathers o k (.start o.sources) exchanges g)
    (hunit : g.units.contains name = true) :
    ∃ m ≤ k + 1, ∃ exchanges' g', Gathering.Gathers o' m (.start o'.sources) exchanges' g' := by
  obtain ⟨place, hcomplete⟩ := hgathers.isComplete (.start o) (.empty o)
  refine Gathering.exists_gathers_of_sameTexts h.sameTexts (fun n _ hn => ⟨?_, h.answer n⟩) 1 ?_ hgathers
    fun n hn => ⟨trivial, ?_⟩
  · exact Bool.eq_false_iff.2 fun hown => Bool.eq_false_iff.1 hn (h.contains.2 (.inr hown))
  · rw [h.sources, Table.keys_insert]
    split <;> simp
  · rcases h.contains.1 hn with rfl | hn
    · exact hunit
    · exact hcomplete.contains_of_source hn

end Hands

namespace SameTexts

variable {o o' : Origin}

theorem symm (h : o.SameTexts (fun _ => True) o') : o'.SameTexts (fun _ => True) o where
  rules := h.rules.symm
  text? n hn := (h.text? n hn).symm
  closed _ _ _ _ := trivial

/-- What is gathered is gathered of the same texts, too, if all that was handed over is. -/
theorem contains_of_gathers (h : o.SameTexts (fun _ => True) o') {k : Nat} {g g' : Gathering}
    {exchanges exchanges' : List Exchange} {place : String → Int}
    (hgathers : Gathering.Gathers o k (.start o.sources) exchanges g)
    (hcomplete : Gathering.IsComplete o' place exchanges' g')
    (hsources : ∀ n, o.sources.contains n = true → g'.units.contains n = true) {n : String}
    (hn : g.units.contains n = true) : g'.units.contains n = true := by
  -- What is imported is gathered if it has a text; a name without one is never parsed.
  have hwithin := hgathers.within (P := fun n => o.has n = true → g'.units.contains n = true)
    (fun a ha b hb hhas => by
      have hunit := ha (Origin.has_of_mem_imports hb)
      rw [← h.imports trivial] at hb
      rw [hcomplete.contains_of_import hunit hb, h.has trivial, hhas])
    (.start o) (.empty o)
    (fun a ha _ => hsources a ((o.sources.contains_iff_mem_keys a).2 (by
      simpa [Gathering.start, Text.mem_sorted] using ha)))
    fun a ha => by simp [Gathering.start, Table.contains] at ha
  obtain ⟨_, hfinal⟩ := hgathers.isComplete (.start o) (.empty o)
  exact hwithin n hn (hfinal.follows.has (hfinal.follows.units n hn))

end SameTexts

/-- The same sources are gathered. -/
theorem Hands.contains_units {name text : String} {o o' : Origin} (h : Hands name text o o') {k k' : Nat}
    {g g' : Gathering} {exchanges exchanges' : List Exchange}
    (hgathers : Gathering.Gathers o k (.start o.sources) exchanges g)
    (hgathers' : Gathering.Gathers o' k' (.start o'.sources) exchanges' g')
    (hunit : g.units.contains name = true) (n : String) :
    g'.units.contains n = g.units.contains n := by
  obtain ⟨place, hcomplete⟩ := hgathers.isComplete (.start o) (.empty o)
  obtain ⟨place', hcomplete'⟩ := hgathers'.isComplete (.start o') (.empty o')
  refine Bool.eq_iff_iff.2 ⟨h.sameTexts.symm.contains_of_gathers hgathers' hcomplete fun m hm => ?_,
    h.sameTexts.contains_of_gathers hgathers hcomplete' fun m hm =>
      hcomplete'.contains_of_source (h.contains.2 (.inr hm))⟩
  rcases h.contains.1 hm with rfl | hm
  · exact hunit
  · exact hcomplete.contains_of_source hm

end Toy.Origin

namespace Workspace

variable {env env' : Environment} {budget budget' : Nat} {ws ws' : Workspace} {k : Knowledge}
  {uris sources : Table String String} {name text uri : String}

/-! ## Conversations -/

/-- What is known from a conversation with the engine, in which it was handed some texts. -/
def knowledgeOf (uris sources : Table String String) (exchanges : List Exchange) (program : Program) :
    Knowledge where
  program := program
  uris := uris
  sources := (readTextsOf sources .empty exchanges).entries.foldl (fun t e => t.insert e.1 e.2) sources
  readTexts := readTextsOf sources .empty exchanges
  readFailures := readFailuresOf sources .empty exchanges

theorem learn_of_inquire {exchanges : List Exchange} {program : Program}
    (hnames : nameDocuments .empty .empty ws.store.toList = (uris, .ok sources))
    (h : ws.inquire env sources = (exchanges, .ok program)) :
    ws.learn env = .ok (knowledgeOf uris sources exchanges program) := by
  unfold learn
  rw [hnames]
  simp only [h, Except.map]
  rfl

theorem IsGathered.inquire (henv : env.IsToy budget) {exchanges : List Exchange} {g : Gathering}
    (h : IsGathered env budget ws k sources exchanges g) :
    ws.inquire env sources = (exchanges, .ok (bindAll g)) := by
  obtain ⟨n, hn, hgathers⟩ := h.gathers
  exact (inquire_eq_ok_iff henv).2 ⟨g, rfl, n, hn, hgathers⟩

/-- The texts that were read. -/
theorem IsGathered.readTexts (henv : env.IsToy budget) {exchanges : List Exchange} {g : Gathering}
    (h : IsGathered env budget ws k sources exchanges g) (hlearn : ws.learn env = .ok k) :
    k.readTexts = readTextsOf sources .empty exchanges := by
  rw [learn_of_inquire h.named (h.inquire henv)] at hlearn
  exact (Except.ok.inj hlearn) ▸ rfl

/-- A compilation that ends within a budget ends in the same way within a larger one. -/
theorem learn_mono (henv : env.IsToy budget) (henv' : env'.IsToy budget')
    (hfiles : env'.files = env.files) (hbudget : budget ≤ budget') (h : ws.learn env = .ok k) :
    ws.learn env' = .ok k := by
  obtain ⟨sources, exchanges, g, hgathered⟩ := exists_isGathered henv h
  obtain ⟨n, hn, hgathers⟩ := hgathered.gathers
  have hinquire : ws.inquire env' sources = (exchanges, .ok (bindAll g)) :=
    (inquire_eq_ok_iff henv').2 ⟨g, rfl, n, Nat.le_trans hn hbudget, by
      unfold origin
      rw [hfiles]
      exact hgathers⟩
  rw [learn_of_inquire hgathered.named hinquire, ← h,
    learn_of_inquire hgathered.named (hgathered.inquire henv)]

/-! ## One more document -/

theorem nameDocuments_append {uris' texts texts' : Table String String} {l l' : List Document}
    (h : nameDocuments uris texts l = (uris', .ok texts')) :
    nameDocuments uris texts (l ++ l') = nameDocuments uris' texts' l' := by
  induction l generalizing uris texts with
  | nil =>
    obtain ⟨rfl, htexts⟩ := Prod.mk.inj h
    obtain rfl := Except.ok.inj htexts
    rfl
  | cons d rest ih =>
    obtain ⟨n, hname, hrest⟩ := nameDocuments_cons_iff.1 h
    rw [List.cons_append, nameDocuments, hname]
    exact ih hrest

/-- A document whose name no document has is not tracked. -/
theorem contains_eq_false_of_unnamed (hformed : ws.store.IsFormed)
    (hnames : nameDocuments .empty .empty ws.store.toList = (uris, .ok sources))
    (hname : sourceNameFor uri = .ok name) (hnew : sources.contains name = false) :
    ws.store.contains uri = false := by
  rw [Bool.eq_false_iff]
  intro htracked
  rw [contains_of_named hformed hnames htracked hname] at hnew
  cases hnew

/-- A document whose name no document has is named behind all others. -/
theorem nameDocuments_track (hformed : ws.store.IsFormed)
    (hnames : nameDocuments .empty .empty ws.store.toList = (uris, .ok sources))
    (hname : sourceNameFor uri = .ok name) (hnew : sources.contains name = false) (language : Json)
    (version : Option Int) (content : String) :
    nameDocuments .empty .empty (ws.store.track uri language version content).toList =
      (uris.insert name uri, .ok (sources.insert name content)) := by
  have huntracked := contains_eq_false_of_unnamed hformed hnames hname hnew
  have hlist : (ws.store.track uri language version content).toList =
      ws.store.toList ++ [{ uri, language, version, content, revision := 0 }] := by
    have hnone : ws.store.find? uri = none := (Table.contains_eq_false_iff _ _).1 huntracked
    simp only [DocumentStore.track, hnone, DocumentStore.toList, Table.values]
    rw [Table.entries_insert_of_new huntracked, List.map_append]
    rfl
  rw [hlist, nameDocuments_append hnames]
  simp only [nameDocuments, hname]

/-! ## One source handed over -/

/-- Where a text comes from does not matter to the answers. -/
theorem answer_insert {files : FileSystem}
    (h : ws.answer files sources sourceKind name = .ok (.ok text)) (n : String) :
    ws.answer files (sources.insert name text) sourceKind n = ws.answer files sources sourceKind n := by
  by_cases heq : name = n
  · subst heq
    rw [h]
    simp [answer]
  · simp [answer, heq]

/-- A source that a compilation reads is compiled, and it may be handed over instead. -/
theorem IsGathered.hands (henv : env.IsToy budget) {exchanges : List Exchange} {g : Gathering}
    (h : IsGathered env budget ws k sources exchanges g) (hlearn : ws.learn env = .ok k)
    (hread : k.readTexts.find? name = some text) (hfiles : env'.files = env.files)
    (hconfiguration : ws'.configuration = ws.configuration) (hbase : ws'.base = ws.base) :
    g.units.contains name = true ∧
      (ws.origin env sources).Hands name text (ws'.origin env' (sources.insert name text)) := by
  obtain ⟨_, -, hgathers⟩ := h.gathers
  obtain ⟨place, hcomplete⟩ := h.isComplete
  rw [h.readTexts henv hlearn] at hread
  obtain ⟨x, hx, -, rfl, htext⟩ := (exists_of_find?_readTextsOf hread).resolve_left (by simp)
  obtain ⟨-, hnew, hserved⟩ := hcomplete.follows.asked x hx
  rw [htext] at hserved
  exact ⟨hgathers.contains_of_served hx htext,
    { rules := congrArg Configuration.remappings hconfiguration
      sources := rfl
      new := hnew
      answer := fun n => by
        show answer env'.files ws' _ sourceKind n = answer env.files ws sources sourceKind n
        rw [hfiles, answer_congr env.files hconfiguration hbase]
        exact answer_insert hserved n
      served := hserved }⟩

/-- A name whose own URI is noted keeps it, and so do all others. -/
theorem uriFor_insert {k' : Knowledge} (huris : k'.uris = k.uris.insert name uri)
    (huri : (Workspace.empty.absorb k).uriFor name = .ok uri) (n : String) :
    (Workspace.empty.absorb k').uriFor n = (Workspace.empty.absorb k).uriFor n := by
  have hfind : (Workspace.empty.absorb k').uris.find? n =
      if name = n then some uri else (Workspace.empty.absorb k).uris.find? n := by
    show k'.uris.find? n = if name = n then some uri else k.uris.find? n
    rw [huris, Table.find?_insert]
  by_cases heq : name = n
  · subst heq
    rw [huri, uriFor, hfind, if_pos rfl]
  · rw [uriFor, uriFor, hfind, if_neg heq]

/-- A source that a compilation reads may be handed over instead, with the same text and under the same
URI.  This takes one more step, and the same sources are compiled to the same but for the handles. -/
theorem exists_mirrors_handed (henv : env.IsToy budget) (henv' : env'.IsToy budget')
    (hfiles : env'.files = env.files) (hbudget : budget < budget') (hlearn : ws.learn env = .ok k)
    (hnames : nameDocuments .empty .empty ws.store.toList = (uris, .ok sources))
    (hread : k.readTexts.find? name = some text)
    (huri : (Workspace.empty.absorb k).uriFor name = .ok uri)
    (hnames' : nameDocuments .empty .empty ws'.store.toList =
      (uris.insert name uri, .ok (sources.insert name text)))
    (hconfiguration : ws'.configuration = ws.configuration) (hbase : ws'.base = ws.base) :
    ∃ k', ws'.learn env' = .ok k' ∧
      (∀ n, k'.program.units.contains n = k.program.units.contains n) ∧
      ∃ r, (∀ n, r.Near n ↔ k.program.units.contains n = true) ∧ k.Mirrors r k' := by
  have hlarger := learn_mono henv henv' hfiles (Nat.le_of_lt hbudget) hlearn
  obtain ⟨_, exchanges, g, hgathered⟩ := exists_isGathered henv hlearn
  obtain ⟨rfl, hown⟩ := Prod.mk.inj (hnames.symm.trans hgathered.named)
  obtain rfl := Except.ok.inj hown
  obtain ⟨steps, hsteps, hgathers⟩ := hgathered.gathers
  obtain ⟨hunit, hhands⟩ := hgathered.hands henv hlearn hread hfiles hconfiguration hbase
  obtain ⟨steps', hsteps', exchanges', g₁, hgathers'⟩ := hhands.exists_gathers hgathers hunit
  obtain ⟨k', hlearn'⟩ := exists_learn henv' hnames' (by omega) hgathers'
  obtain ⟨_, exchanges', g', hgathered'⟩ := exists_isGathered henv' hlearn'
  obtain ⟨huris, hown⟩ := Prod.mk.inj (hnames'.symm.trans hgathered'.named)
  obtain rfl := Except.ok.inj hown
  obtain ⟨_, -, hgathers'⟩ := hgathered'.gathers
  have hcontains (n : String) : k'.program.units.contains n = k.program.units.contains n := by
    simp only [hgathered.program, hgathered'.program, Gathering.contains_bindAll]
    exact hhands.contains_units hgathers hgathers' hunit n
  have horigin : ws.origin env' sources = ws.origin env sources := by
    unfold origin
    rw [hfiles]
  rw [← horigin] at hhands
  obtain ⟨r, hnear, hmirrors⟩ := exists_mirrors_of_sameTexts (P := fun _ => True) henv' hlarger hlearn'
    hnames hnames' hhands.sameTexts (fun n _ => hhands.failure? n)
    (fun n _ => uriFor_insert huris.symm huri n) (fun n _ => hcontains n) fun _ => trivial
  exact ⟨k', hlearn', hcontains, r, fun n => (hnear n).trans (iff_of_eq (true_and _)), hmirrors⟩

end Workspace

end LanguageServer
