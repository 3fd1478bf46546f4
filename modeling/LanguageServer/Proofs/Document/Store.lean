import LanguageServer.Document.Store
import LanguageServer.Proofs.Table

/-!
# Operations on documents

What each operation makes of a store of documents.  Every operation that succeeds counts
as a change, but for an eviction that forgets nothing; and an eviction keeps the part of
the documents that is not asked for or open.

## Main definitions

* `DocumentStore.IsFormed` — documents are kept under their URIs, and what is open is tracked.

## Main statements

* `DocumentStore.documents_evict` — what an eviction keeps.
* `DocumentStore.IsFormed.evict` and its siblings — every operation keeps a store formed.
-/

namespace LanguageServer.DocumentStore

variable {s s' : DocumentStore} {uri : String}

theorem size_ne_zero_of_contains (h : s.contains uri = true) : s.size ≠ 0 := by
  intro hsize
  have hempty : s.documents.entries = [] := List.length_eq_zero_iff.1 hsize
  simp [contains, Table.contains, Table.find?, hempty, Table.findIn] at h

theorem get_eq_ok_iff {d : Document} : s.get uri = .ok d ↔ s.find? uri = some d := by
  unfold get
  cases s.find? uri <;> simp

/-! ## What operations do -/

theorem contains_track (s : DocumentStore) (uri : String) (language : Json)
    (version : Option Int) (content : String) :
    (s.track uri language version content).contains uri = true := by
  simp [track, contains, Table.contains]

theorem exists_get_track (s : DocumentStore) (uri : String) (language : Json) (version : Option Int)
    (content : String) :
    ∃ d, (s.track uri language version content).get uri = .ok d ∧ d.version = version := by
  refine ⟨_, get_eq_ok_iff.2 ((Table.find?_insert ..).trans (if_pos rfl)), rfl⟩

theorem mem_openUris_track {s : DocumentStore} {other : String} (h : other ∈ s.openUris) (uri : String)
    (language : Json) (version : Option Int) (content : String) :
    other ∈ (s.track uri language version content).openUris := by
  show other ∈ markOpen uri s.openUris
  unfold markOpen
  split
  · exact h
  · exact List.mem_append_left _ h

theorem mem_openUris_of_track {s : DocumentStore} {uri other : String} {language : Json}
    {version : Option Int} {content : String}
    (h : other ∈ (s.track uri language version content).openUris) :
    other = uri ∨ other ∈ s.openUris := by
  replace h : other ∈ markOpen uri s.openUris := h
  unfold markOpen at h
  split at h
  · exact .inr h
  · exact (List.mem_append.1 h).symm.imp_left List.mem_singleton.1

theorem contains_insert_of_contains {d : Document} {other : String}
    (h : s.contains other = true) (n : Nat) (uris : List String) :
    (⟨s.documents.insert uri d, uris, n⟩ : DocumentStore).contains other = true := by
  unfold contains Table.contains at h ⊢
  rw [Table.find?_insert]
  split
  · rfl
  · exact h

/-- Edits that are applied change the text of a document that is tracked. -/
theorem applyEdits_eq_ok {version : Option Int} {edits : List Edit}
    (h : s.applyEdits uri version edits = .ok s') :
    ∃ d content, s.find? uri = some d ∧ LanguageServer.applyEdits d.content edits = .ok content ∧
      s' = { s with
        documents := s.documents.insert uri (d.changed version content)
        generation := s.generation + 1 } := by
  unfold applyEdits at h
  cases hget : s.get uri with
  | error e => simp [hget, bind, Except.bind] at h
  | ok d =>
    cases hedits : LanguageServer.applyEdits d.content edits with
    | error e => simp [hget, hedits, bind, Except.bind] at h
    | ok content =>
      simp only [hget, hedits, bind, Except.bind, pure, Except.pure, Except.ok.injEq] at h
      exact ⟨d, content, get_eq_ok_iff.1 hget, hedits, h.symm⟩

theorem generation_applyEdits {version : Option Int} {edits : List Edit}
    (h : s.applyEdits uri version edits = .ok s') : s'.generation = s.generation + 1 := by
  obtain ⟨d, content, -, -, rfl⟩ := applyEdits_eq_ok h
  rfl

theorem contains_applyEdits {version : Option Int} {edits : List Edit}
    (h : s.applyEdits uri version edits = .ok s') : s'.contains uri = true := by
  obtain ⟨d, content, -, -, rfl⟩ := applyEdits_eq_ok h
  simp [contains, Table.contains]

/-- Closing a document changes only what is open. -/
theorem close_eq_ok (h : s.close uri = .ok s') :
    s.contains uri = true ∧
      s' = { s with
        openUris := s.openUris.filter (· ≠ uri)
        generation := s.generation + 1 } := by
  unfold close at h
  cases hget : s.get uri with
  | error e => simp [hget, bind, Except.bind] at h
  | ok d =>
    simp only [hget, bind, Except.bind, pure, Except.pure, Except.ok.injEq] at h
    refine ⟨?_, h.symm⟩
    simp [contains, Table.contains, show s.documents.find? uri = some d from get_eq_ok_iff.1 hget]

theorem generation_close (h : s.close uri = .ok s') : s'.generation = s.generation + 1 := by
  obtain ⟨-, rfl⟩ := close_eq_ok h
  rfl

theorem contains_close (h : s.close uri = .ok s') (other : String) :
    s'.contains other = s.contains other := by
  obtain ⟨-, rfl⟩ := close_eq_ok h
  rfl

/-! ## Eviction -/

/-- Evicting documents one after the other keeps those that are not asked for, and the open ones. -/
theorem evictEach_eq (s : DocumentStore) (uris : List String) :
    (s.evictEach uris).1 =
      { s with documents := s.documents.restrict fun k => !uris.contains k || s.isOpen k } := by
  induction uris generalizing s with
  | nil =>
    have hall : s.documents.restrict (fun k => !([] : List String).contains k || s.isOpen k)
        = s.documents := Table.restrict_eq_self fun k _ => rfl
    rw [hall]
    rfl
  | cons uri rest ih =>
    unfold evictEach
    cases hopen : s.isOpen uri with
    | true =>
      rw [if_neg (by simp), ih]
      congr 1
      refine Table.restrict_congr fun k _ => ?_
      by_cases hk : k = uri
      · simp [hk, hopen]
      · simp [hk]
    | false =>
      -- What follows evicts from a store without this document.
      have hgone : ({ s with documents := s.documents.erase uri }.evictEach rest).1 =
          { s with documents := s.documents.restrict fun k =>
              !(uri :: rest).contains k || s.isOpen k } := by
        rw [ih]
        congr 1
        rw [Table.erase_eq_restrict, Table.restrict_restrict]
        refine Table.restrict_congr fun k _ => ?_
        by_cases hk : k = uri
        · simp [hk, hopen]
        · simp [hk, isOpen]
      cases hcontains : s.contains uri with
      | true =>
        rw [if_pos (by simp)]
        exact hgone
      | false =>
        rw [if_neg (by simp), ← hgone, Table.erase_of_not_contains hcontains]

theorem evictEach_none {uris : List String} (h : (s.evictEach uris).2 = []) :
    (s.evictEach uris).1 = s := by
  induction uris with
  | nil => rfl
  | cons uri rest ih =>
    unfold evictEach at h ⊢
    split
    · next hgoes => simp [hgoes] at h
    · next hstays => exact ih (by simpa [hstays] using h)

/-- What an eviction keeps. -/
theorem documents_evict (s : DocumentStore) (uris : List String) :
    (s.evict uris).1.documents =
      s.documents.restrict fun k => !uris.contains k || s.isOpen k := by
  have heach : (s.evictEach uris).1.documents = _ := congrArg documents (s.evictEach_eq uris)
  refine Eq.trans ?_ heach
  simp only [evict]
  split <;> rfl

@[simp] theorem openUris_evict (s : DocumentStore) (uris : List String) :
    (s.evict uris).1.openUris = s.openUris := by
  have heach : (s.evictEach uris).1.openUris = _ := congrArg openUris (s.evictEach_eq uris)
  refine Eq.trans ?_ heach
  simp only [evict]
  split <;> rfl

theorem mem_evictEach {uris : List String} (h : s.contains uri = true)
    (hgone : (s.evictEach uris).1.contains uri = false) : uri ∈ (s.evictEach uris).2 := by
  induction uris generalizing s with
  | nil => simp [evictEach, h] at hgone
  | cons other rest ih =>
    unfold evictEach at hgone ⊢
    split
    · next hgoes =>
      rw [if_pos hgoes] at hgone
      by_cases hother : other = uri
      · exact hother ▸ List.mem_cons_self
      · refine List.mem_cons_of_mem _ (ih ?_ hgone)
        simpa [contains, Table.contains, hother] using h
    · next hstays =>
      rw [if_neg hstays] at hgone
      exact ih h hgone

/-- What an eviction forgets is listed. -/
theorem mem_evict {uris : List String} (h : s.contains uri = true)
    (hgone : (s.evict uris).1.contains uri = false) : uri ∈ (s.evict uris).2 := by
  unfold evict at hgone ⊢
  simp only at hgone ⊢
  split at hgone <;> split <;> exact mem_evictEach h hgone

/-- Evicting documents counts as a change exactly if some went. -/
theorem evict_cases (s : DocumentStore) (uris : List String) :
    (s.evict uris).1 = s ∨ (s.evict uris).1.generation = s.generation + 1 := by
  have heach := congrArg generation (s.evictEach_eq uris)
  unfold evict
  by_cases h : (s.evictEach uris).2 = []
  · exact .inl (by simpa [h] using evictEach_none h)
  · exact .inr (by simp [h, heach])

/-! ## Formed stores -/

/-- Every document is kept under its URI, and what is open is tracked. -/
structure IsFormed (s : DocumentStore) : Prop where
  uri : ∀ e ∈ s.documents.entries, e.2.uri = e.1
  tracked : ∀ uri ∈ s.openUris, s.contains uri = true

theorem isFormed_empty : empty.IsFormed := by
  constructor <;> simp [empty, Table.empty]

theorem IsFormed.openUris_eq_nil (h : s.IsFormed) (hsize : s.size = 0) : s.openUris = [] :=
  List.eq_nil_iff_forall_not_mem.2 fun uri huri => size_ne_zero_of_contains (h.tracked uri huri) hsize

/-- A document that is tracked under its URI keeps a store formed. -/
theorem IsFormed.insert (h : s.IsFormed) {d : Document} (hd : d.uri = uri)
    (hdocuments : s'.documents = s.documents.insert uri d)
    (hopen : ∀ u ∈ s'.openUris, u = uri ∨ u ∈ s.openUris) : s'.IsFormed where
  uri e he := by
    rw [hdocuments] at he
    rcases Table.mem_insertIn he with rfl | he
    · exact hd
    · exact h.uri e he
  tracked u hu := by
    simp only [contains, Table.contains, hdocuments, Table.find?_insert]
    split
    · rfl
    · next hne => exact h.tracked u ((hopen u hu).resolve_left (Ne.symm hne))

theorem IsFormed.track (h : s.IsFormed) (uri : String) (language : Json) (version : Option Int)
    (content : String) : (s.track uri language version content).IsFormed :=
  h.insert (show Document.uri ⟨uri, language, version, content, _⟩ = uri from rfl) rfl
    fun _ => mem_openUris_of_track

theorem IsFormed.applyEdits (h : s.IsFormed) {version : Option Int} {edits : List Edit}
    (hedits : s.applyEdits uri version edits = .ok s') : s'.IsFormed := by
  obtain ⟨d, content, hd, -, rfl⟩ := applyEdits_eq_ok hedits
  have huri : (d.changed version content).uri = uri := h.uri _ (Table.mem_entries_of_find? hd)
  exact h.insert huri rfl fun _ => .inr

theorem IsFormed.close (h : s.IsFormed) (hclose : s.close uri = .ok s') : s'.IsFormed := by
  obtain ⟨-, rfl⟩ := close_eq_ok hclose
  exact ⟨h.uri, fun u hu => h.tracked u (List.mem_filter.1 hu).1⟩

theorem IsFormed.evict (h : s.IsFormed) (uris : List String) : (s.evict uris).1.IsFormed where
  uri e he := by
    rw [documents_evict] at he
    exact h.uri e (List.mem_filter.1 he).1
  tracked u hu := by
    rw [openUris_evict] at hu
    have hopen : s.isOpen u = true := by simpa [isOpen] using hu
    simp only [contains, Table.contains, documents_evict, Table.find?_restrict, hopen, Bool.or_true,
      if_true]
    exact h.tracked u hu

end LanguageServer.DocumentStore
