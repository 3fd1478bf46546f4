import LanguageServer.Document.Indexed
import LanguageServer.Proofs.Document.History

/-!
# Line indexes that are kept

A line index that is kept for a document is always that of its text.  So whoever asks for
it, and whoever reads a range through it, gets what a new index would give, and a store of
documents with their indexes behaves as the store of the documents alone.

## Main definitions

* `IndexedDocument.IsCurrent` — the index that is kept is that of the text.
* `IndexedStore.IsFormed` — what holds of a store after any operations.
* `IndexedStore.Reached` — operations lead to a store.

## Main statements

* `applyEditsWith_eq` — a batch reads its ranges as if every index were new.
* `IndexedStore.view_perform` — the indexes show in no operation.
* `IndexedStore.isFormed_run` — what every history of the store keeps.
-/

namespace LanguageServer

/-! ## Documents -/

namespace IndexedDocument

/-- The index that is kept, if there is one, is that of the text. -/
def IsCurrent (d : IndexedDocument) : Prop :=
  ∀ index, d.index? = some index → index = LineIndex.ofString d.content

variable {d : IndexedDocument}

theorem isCurrent_of_none (h : d.index? = none) : d.IsCurrent := by
  intro index hindex
  rw [h] at hindex
  cases hindex

theorem IsCurrent.lineIndex_fst (h : d.IsCurrent) :
    d.lineIndex.1 = LineIndex.ofString d.content := by
  unfold lineIndex
  split
  · next index hindex => exact h index hindex
  · rfl

@[simp] theorem toDocument_lineIndex (d : IndexedDocument) :
    d.lineIndex.2.toDocument = d.toDocument := by
  unfold lineIndex
  split <;> rfl

theorem content_lineIndex (d : IndexedDocument) : d.lineIndex.2.content = d.content :=
  congrArg Document.content d.toDocument_lineIndex

theorem IsCurrent.lineIndex_snd (h : d.IsCurrent) : d.lineIndex.2.IsCurrent := by
  unfold lineIndex
  split
  · exact h
  · intro index hindex
    exact (Option.some.inj hindex).symm

/-- What a batch makes of a document that was asked for its index. -/
theorem toDocument_edited (d : IndexedDocument) (version : Option Int) {edits : List Edit}
    {content : String} (h : applyEdits d.content edits = .ok content) :
    (d.lineIndex.2.edited version edits content).toDocument =
      d.toDocument.changed version content := by
  rw [← d.content_lineIndex] at h
  rw [← d.toDocument_lineIndex]
  cases edits with
  | nil =>
    obtain rfl := Except.ok.inj h
    rfl
  | cons e rest => rfl

theorem IsCurrent.edited (h : d.IsCurrent) (version : Option Int) (edits : List Edit)
    (content : String) : (d.edited version edits content).IsCurrent := by
  cases edits with
  | nil => exact h
  | cons e rest => exact isCurrent_of_none rfl

end IndexedDocument

/-! ## Edits -/

theorem Edit.applyWith_eq (e : Edit) {index? : Option LineIndex} {content : String}
    (h : ∀ index, index? = some index → index = LineIndex.ofString content) :
    e.applyWith index? content = e.apply content := by
  have hindex : index?.getD (LineIndex.ofString content) = LineIndex.ofString content := by
    cases index? with
    | none => rfl
    | some index => exact h index rfl
  cases e with
  | replace text => rfl
  | splice range text => rw [Edit.applyWith, Edit.apply, hindex]

/-- Edits read their ranges as if every index were new, if the one at hand is that of the text. -/
theorem applyEditsWith_eq (edits : List Edit) {index? : Option LineIndex} {content : String}
    (h : ∀ index, index? = some index → index = LineIndex.ofString content) :
    applyEditsWith index? content edits = applyEdits content edits := by
  induction edits generalizing index? content with
  | nil => rfl
  | cons e rest ih =>
    rw [applyEditsWith, applyEdits, e.applyWith_eq h]
    refine congrArg (e.apply content >>= ·) (funext fun next => ih ?_)
    -- Behind the first edit there is no index at hand.
    intro index hindex
    cases hindex

/-! ## The store -/

namespace IndexedStore

variable {s : IndexedStore} {uri : String}

/-- Every document is kept under its URI, what is open is tracked, and every index that is kept is
that of the text of its document. -/
structure IsFormed (s : IndexedStore) : Prop where
  uri : ∀ e ∈ s.documents.entries, e.2.uri = e.1
  tracked : ∀ uri ∈ s.openUris, s.documents.contains uri = true
  current : ∀ e ∈ s.documents.entries, e.2.IsCurrent

theorem contains_view (s : IndexedStore) (uri : String) :
    s.view.contains uri = s.documents.contains uri := Table.contains_mapValues _ s.documents uri

theorem find?_view (s : IndexedStore) (uri : String) :
    s.view.find? uri = (s.documents.find? uri).map (·.toDocument) :=
  Table.find?_mapValues _ s.documents uri

theorem get_view (s : IndexedStore) (uri : String) :
    s.view.get uri = (s.get uri).map (·.toDocument) := by
  unfold DocumentStore.get get
  rw [find?_view]
  cases s.documents.find? uri <;> rfl

/-- A store is formed if its view is and its indexes are current. -/
theorem isFormed_of_view (h : s.view.IsFormed)
    (hcurrent : ∀ e ∈ s.documents.entries, e.2.IsCurrent) : s.IsFormed where
  uri e he := h.uri (e.1, e.2.toDocument) (List.mem_map_of_mem he)
  tracked uri huri := (s.contains_view uri).symm.trans (h.tracked uri huri)
  current := hcurrent

theorem IsFormed.view (h : s.IsFormed) : s.view.IsFormed where
  uri e he := by
    obtain ⟨e', he', rfl⟩ := List.mem_map.1 he
    exact h.uri e' he'
  tracked uri huri := (s.contains_view uri).trans (h.tracked uri huri)

theorem isFormed_empty : empty.IsFormed := by
  constructor <;> simp [empty, Table.empty]

theorem IsFormed.isCurrent (h : s.IsFormed) {d : IndexedDocument}
    (hd : s.documents.find? uri = some d) : d.IsCurrent :=
  h.current _ (Table.mem_entries_of_find? hd)

theorem get_eq_ok_iff {d : IndexedDocument} :
    s.get uri = .ok d ↔ s.documents.find? uri = some d := by
  unfold get
  cases s.documents.find? uri <;> simp

theorem get_of_find?_eq_none (h : s.documents.find? uri = none) :
    s.get uri = .error (.unknown uri) := by
  rw [get, h]

/-! ## What operations do -/

theorem view_track (s : IndexedStore) (uri : String) (language : Json) (version : Option Int)
    (content : String) :
    (s.track uri language version content).view = s.view.track uri language version content := by
  unfold track DocumentStore.track
  rw [find?_view]
  cases s.documents.find? uri with
  | none => exact congrArg (DocumentStore.mk · _ _) (Table.mapValues_insert ..)
  | some d => exact congrArg (DocumentStore.mk · _ _) (Table.mapValues_insert ..)

/-- Asking for an index changes nothing that shows. -/
theorem view_insert_lineIndex {d : IndexedDocument} (hd : s.documents.find? uri = some d) :
    ({ s with documents := s.documents.insert uri d.lineIndex.2 } : IndexedStore).view =
      s.view := by
  unfold view
  rw [Table.mapValues_insert_of_find? hd d.toDocument_lineIndex]

/-- A batch of edits of a document that is tracked. -/
theorem IsFormed.applyEdits_eq (h : s.IsFormed) {d : IndexedDocument}
    (hd : s.documents.find? uri = some d) (version : Option Int) (edits : List Edit) :
    s.applyEdits uri version edits =
      match LanguageServer.applyEdits d.content edits with
      | .error cause =>
        ({ s with documents := s.documents.insert uri d.lineIndex.2 }, .error (.misfit uri cause))
      | .ok content =>
        ({ s with
            documents := s.documents.insert uri (d.lineIndex.2.edited version edits content)
            generation := s.generation + 1 }, .ok ()) := by
  have hbatch : applyEditsWith (some d.lineIndex.1) d.content edits =
      LanguageServer.applyEdits d.content edits :=
    applyEditsWith_eq edits fun index hindex =>
      (Option.some.inj hindex).symm.trans (h.isCurrent hd).lineIndex_fst
  unfold applyEdits
  cases hedits : LanguageServer.applyEdits d.content edits with
  | error cause => simp [get_eq_ok_iff.2 hd, hbatch, hedits]
  | ok content => simp [get_eq_ok_iff.2 hd, hbatch, hedits]

/-- A batch of edits of the documents alone. -/
theorem view_applyEdits (h : s.IsFormed) (uri : String) (version : Option Int) (edits : List Edit) :
    ((s.applyEdits uri version edits).1.view, (s.applyEdits uri version edits).2) =
      s.view.settle (s.view.applyEdits uri version edits) := by
  have hget := s.get_view uri
  cases hd : s.documents.find? uri with
  | none =>
    rw [get_of_find?_eq_none hd] at hget
    simp only [applyEdits, get_of_find?_eq_none hd, DocumentStore.applyEdits, hget]
    rfl
  | some d =>
    rw [get_eq_ok_iff.2 hd] at hget
    rw [h.applyEdits_eq hd, DocumentStore.applyEdits, hget]
    cases hedits : LanguageServer.applyEdits d.content edits with
    | error cause =>
      simp [hedits, bind, Except.bind, Except.map, DocumentStore.settle, view_insert_lineIndex hd]
    | ok content =>
      simp [hedits, bind, Except.bind, Except.map, pure, Except.pure, DocumentStore.settle, view,
        Table.mapValues_insert, d.toDocument_edited version hedits]

theorem view_close (s : IndexedStore) (uri : String) :
    ((s.close uri).1.view, (s.close uri).2) = s.view.settle (s.view.close uri) := by
  unfold close DocumentStore.close
  rw [get_view]
  cases s.get uri <;> rfl

theorem view_evictEach (s : IndexedStore) (uris : List String) :
    ((s.evictEach uris).1.view, (s.evictEach uris).2) = s.view.evictEach uris := by
  induction uris generalizing s with
  | nil => rfl
  | cons uri rest ih =>
    have hgoes : (s.view.contains uri && !s.view.isOpen uri) =
        (s.documents.contains uri && !s.openUris.contains uri) := by
      rw [contains_view]
      rfl
    unfold evictEach DocumentStore.evictEach
    rw [hgoes]
    split
    · have herase : ({ s with documents := s.documents.erase uri } : IndexedStore).view =
          { s.view with documents := s.view.documents.erase uri } :=
        congrArg (DocumentStore.mk · _ _) (Table.mapValues_erase ..)
      rw [← herase, ← ih]
    · exact ih s

theorem view_evict (s : IndexedStore) (uris : List String) :
    ((s.evict uris).1.view, (s.evict uris).2) = s.view.evict uris := by
  unfold evict DocumentStore.evict
  rw [← view_evictEach]
  dsimp only
  split <;> rfl

/-! ## Indexes stay current -/

theorem isCurrent_of_mem_insert (h : s.IsFormed) {d : IndexedDocument} (hd : d.IsCurrent)
    (uri : String) : ∀ e ∈ (s.documents.insert uri d).entries, e.2.IsCurrent := by
  intro e he
  rcases Table.mem_insertIn he with rfl | he
  · exact hd
  · exact h.current e he

theorem mem_of_mem_evictEach {uris : List String} {e : String × IndexedDocument}
    (h : e ∈ (s.evictEach uris).1.documents.entries) : e ∈ s.documents.entries := by
  induction uris generalizing s with
  | nil => exact h
  | cons uri rest ih =>
    unfold evictEach at h
    split at h
    · exact (List.mem_filter.1 (ih h)).1
    · exact ih h

theorem mem_of_mem_evict {uris : List String} {e : String × IndexedDocument}
    (h : e ∈ (s.evict uris).1.documents.entries) : e ∈ s.documents.entries := by
  have heach : (s.evict uris).1.documents = (s.evictEach uris).1.documents := by
    unfold evict
    dsimp only
    split <;> rfl
  exact mem_of_mem_evictEach (heach ▸ h)

theorem IsFormed.isCurrent_applyEdits (h : s.IsFormed) (uri : String) (version : Option Int)
    (edits : List Edit) :
    ∀ e ∈ (s.applyEdits uri version edits).1.documents.entries, e.2.IsCurrent := by
  cases hd : s.documents.find? uri with
  | none =>
    simp only [applyEdits, get_of_find?_eq_none hd]
    exact h.current
  | some d =>
    have hcurrent := (h.isCurrent hd).lineIndex_snd
    rw [h.applyEdits_eq hd]
    cases LanguageServer.applyEdits d.content edits with
    | error cause => exact isCurrent_of_mem_insert h hcurrent uri
    | ok content => exact isCurrent_of_mem_insert h (hcurrent.edited version edits content) uri

theorem IsFormed.lineIndex_eq (h : s.IsFormed) {d : IndexedDocument}
    (hd : s.documents.find? uri = some d) :
    s.lineIndex uri = ({ s with documents := s.documents.insert uri d.lineIndex.2 },
      .ok (LineIndex.ofString d.content)) := by
  rw [lineIndex, get_eq_ok_iff.2 hd, ← (h.isCurrent hd).lineIndex_fst]

theorem IsFormed.isCurrent_lineIndex (h : s.IsFormed) (uri : String) :
    ∀ e ∈ (s.lineIndex uri).1.documents.entries, e.2.IsCurrent := by
  cases hd : s.documents.find? uri with
  | none =>
    simp only [lineIndex, get_of_find?_eq_none hd]
    exact h.current
  | some d =>
    rw [h.lineIndex_eq hd]
    exact isCurrent_of_mem_insert h (h.isCurrent hd).lineIndex_snd uri

/-! ## All operations -/

theorem view_lineIndex (h : s.IsFormed) (uri : String) :
    ((s.lineIndex uri).1.view, (s.lineIndex uri).2) =
      (s.view, (s.view.get uri).map fun d => .ofString d.content) := by
  rw [get_view]
  cases hd : s.documents.find? uri with
  | none =>
    simp only [lineIndex, get_of_find?_eq_none hd]
    rfl
  | some d =>
    rw [h.lineIndex_eq hd, get_eq_ok_iff.2 hd, view_insert_lineIndex hd]
    rfl

theorem view_done {r : IndexedStore × Except StoreError Unit}
    {r' : Except StoreError DocumentStore} (h : (r.1.view, r.2) = s.view.settle r') :
    ((perform.done r).1.view, (perform.done r).2) = DocumentStore.perform.done s.view r' := by
  unfold perform.done DocumentStore.perform.done
  rw [← h]

/-- The indexes show in no operation: it does to the documents, and answers, what it would without
them. -/
theorem view_perform (h : s.IsFormed) (operation : StoreOperation) :
    ((s.perform operation).1.view, (s.perform operation).2) = s.view.perform operation := by
  cases operation with
  | track uri language version content =>
    exact congrArg (·, _) (s.view_track uri language version content)
  | applyEdits uri version edits => exact view_done (view_applyEdits h uri version edits)
  | replaceAll uri version text => exact view_done (view_applyEdits h uri version [.replace text])
  | replaceRange uri version range text =>
    exact view_done (view_applyEdits h uri version [.splice range text])
  | bumpVersion uri version => exact view_done (view_applyEdits h uri version [])
  | close uri => exact view_done (s.view_close uri)
  | evict uris =>
    exact congrArg (fun r => (r.1, Except.ok (StoreAnswer.evicted r.2))) (s.view_evict uris)
  | get uri =>
    have hanswer : (s.get uri).map (fun d => StoreAnswer.document d.toDocument) =
        (s.view.get uri).map .document := by
      rw [get_view]
      cases s.get uri <;> rfl
    exact congrArg (s.view, ·) hanswer
  | lineIndex uri =>
    have hindex := congrArg (fun r => (r.1, r.2.map StoreAnswer.index)) (view_lineIndex h uri)
    refine hindex.trans (congrArg (s.view, ·) ?_)
    cases s.view.get uri <;> rfl

theorem view_perform_fst (h : s.IsFormed) (operation : StoreOperation) :
    (s.perform operation).1.view = (s.view.perform operation).1 :=
  congrArg Prod.fst (view_perform h operation)

theorem IsFormed.perform (h : s.IsFormed) (operation : StoreOperation) :
    (s.perform operation).1.IsFormed := by
  refine isFormed_of_view ?_ ?_
  · rw [view_perform_fst h]
    exact h.view.perform operation
  · cases operation with
    | track uri language version content =>
      exact isCurrent_of_mem_insert h (IndexedDocument.isCurrent_of_none rfl) uri
    | applyEdits uri version edits => exact h.isCurrent_applyEdits uri version edits
    | replaceAll uri version text => exact h.isCurrent_applyEdits uri version [.replace text]
    | replaceRange uri version range text =>
      exact h.isCurrent_applyEdits uri version [.splice range text]
    | bumpVersion uri version => exact h.isCurrent_applyEdits uri version []
    | close uri =>
      intro e he
      refine h.current e ?_
      have hclose : (s.close uri).1.documents = s.documents := by
        unfold close
        cases s.get uri <;> rfl
      exact hclose ▸ he
    | evict uris => exact fun e he => h.current e (mem_of_mem_evict he)
    | get uri => exact h.current
    | lineIndex uri => exact h.isCurrent_lineIndex uri

/-! ## Histories -/

theorem IsFormed.run (h : s.IsFormed) (operations : List StoreOperation) :
    (s.run operations).IsFormed := by
  induction operations generalizing s with
  | nil => exact h
  | cons operation operations ih => exact ih (h.perform operation)

/-- A history of the store is one of the documents alone. -/
theorem view_run (h : s.IsFormed) (operations : List StoreOperation) :
    (s.run operations).view = s.view.run operations := by
  induction operations generalizing s with
  | nil => rfl
  | cons operation operations ih =>
    rw [DocumentStore.run_cons, ← view_perform_fst h]
    exact ih (h.perform operation)

/-- A store to which operations lead from the empty one. -/
def Reached (s : IndexedStore) : Prop := ∃ operations, s = empty.run operations

theorem Reached.isFormed (h : s.Reached) : s.IsFormed := by
  obtain ⟨operations, rfl⟩ := h
  exact isFormed_empty.run operations

theorem view_empty_run (operations : List StoreOperation) :
    (empty.run operations).view = DocumentStore.empty.run operations :=
  view_run isFormed_empty operations

/-- What every history of the store keeps.  Each document is kept under its URI, what is open is
tracked, and an index that is kept is that of the text of its document.  A refused operation changes
nothing but indexes.  The generation never decreases, and two stores of the history that have one
generation have the same documents, of which the same are open. -/
theorem isFormed_run (operations : List StoreOperation) :
    (empty.run operations).IsFormed ∧
    (∀ operation e, ((empty.run operations).perform operation).2 = .error e →
      ((empty.run operations).perform operation).1.view = (empty.run operations).view) ∧
    (∀ earlier later, earlier <+: later → later <+: operations →
      (empty.run earlier).generation ≤ (empty.run later).generation) ∧
    ∀ earlier later, earlier <+: operations → later <+: operations →
      (empty.run earlier).generation = (empty.run later).generation →
      (empty.run earlier).view = (empty.run later).view := by
  have hformed := isFormed_empty.run operations
  have hgeneration (operations : List StoreOperation) :
      (empty.run operations).generation = (DocumentStore.empty.run operations).generation :=
    congrArg DocumentStore.generation (view_empty_run operations)
  refine ⟨hformed, fun operation e h => ?_, fun earlier later hprefix _ => ?_,
    fun earlier later hearlier hlater h => ?_⟩
  · rw [view_perform_fst hformed]
    have hanswer := congrArg Prod.snd (view_perform hformed operation)
    exact DocumentStore.perform_of_error (hanswer.symm.trans h)
  · obtain ⟨rest, rfl⟩ := hprefix
    rw [hgeneration, hgeneration, DocumentStore.run_append]
    exact DocumentStore.generation_le_run _ rest
  · rw [hgeneration, hgeneration] at h
    rw [view_empty_run, view_empty_run]
    exact DocumentStore.run_eq_run_of_generation hearlier hlater h

/-- An edit behind the end of a text of three lines. -/
def strayEdit : StoreOperation := .replaceRange "score" (some 3) ⟨⟨3, 0⟩, ⟨3, 0⟩⟩ "c"

/-- A document is opened, asked for its index and edited, then edited behind its end; and a document
that there is not is evicted. -/
def scoreHistory : List StoreOperation :=
  [.track "score" (.str "toy") (some 1) "a𝄞b\r\n𝄢", .lineIndex "score",
    .replaceRange "score" (some 2) ⟨⟨0, 1⟩, ⟨0, 3⟩⟩ "\n", strayEdit, .evict ["part"]]

/-- The edit behind the end is refused, and the generation tells that nothing happened since. -/
theorem isFormed_run_score :
    (∃ e, ((empty.run (scoreHistory.take 3)).perform strayEdit).2 = .error e ∧
      ((empty.run (scoreHistory.take 3)).perform strayEdit).1.view =
        (empty.run (scoreHistory.take 3)).view) ∧
    (empty.run (scoreHistory.take 3)).generation = 2 ∧
    (empty.run (scoreHistory.take 3)).view = (empty.run scoreHistory).view := by
  obtain ⟨-, hrefused, -, -⟩ := isFormed_run (scoreHistory.take 3)
  obtain ⟨-, -, -, hsame⟩ := isFormed_run scoreHistory
  have herror : ((empty.run (scoreHistory.take 3)).perform strayEdit).2.isOk = false := by
    decide +kernel
  refine ⟨?_, by decide +kernel,
    hsame _ _ (scoreHistory.take_prefix 3) List.prefix_rfl (by decide +kernel)⟩
  cases hr : ((empty.run (scoreHistory.take 3)).perform strayEdit).2 with
  | error e => exact ⟨e, rfl, hrefused _ e hr⟩
  | ok answer =>
    rw [hr] at herror
    cases herror

end IndexedStore

end LanguageServer
