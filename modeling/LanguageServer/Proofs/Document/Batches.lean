import LanguageServer.Proofs.Document.Indexed

/-!
# Batches of edits

A batch of edits is a single change of a document: it commits at its end, and its edits but
the first read their ranges through indexes of their own.  Made one at a time, the edits are
changes of their own: each is committed, drops the index, and makes a new one.  Both ways
come to the same text and version, and they refuse the same edits; only the batch takes back
what it did before the refusal.

## Main definitions

* `IndexedStore.editEach` — edits as changes of their own, up to the first that is refused.

## Main statements

* `IndexedStore.editEach_eq_error_iff` — the first edit that is refused decides.
* `IndexedStore.IsFormed.editEach_of_fits` — what edits one at a time make of a document.
* `IndexedStore.applyEdits_agrees` — a batch is its edits one at a time, all or none.
-/

namespace LanguageServer

/-- To be told a version again changes nothing. -/
theorem nextVersion_nextVersion (current new : Option Int) :
    nextVersion (nextVersion current new) new = nextVersion current new := by
  cases new with
  | none => rfl
  | some v =>
    cases current with
    | none => simp [nextVersion]
    | some c =>
      by_cases hlt : v < c
      · simp [nextVersion, hlt]
      · simp [nextVersion, hlt]

theorem applyEdits_cons (content : String) (e : Edit) (rest : List Edit) :
    applyEdits content (e :: rest) =
      match e.apply content with
      | .ok next => applyEdits next rest
      | .error cause => .error cause := by
  rw [applyEdits]
  cases e.apply content <;> rfl

theorem applyEdits_singleton (content : String) (e : Edit) :
    applyEdits content [e] = e.apply content := by
  rw [applyEdits_cons]
  cases e.apply content <;> rfl

namespace IndexedStore

variable {s : IndexedStore} {uri : String} {d : IndexedDocument} {edits : List Edit}
  {content : String}

/-! ## Edits one at a time -/

/-- One edit, as a change of its own. -/
def edit (s : IndexedStore) (uri : String) (version : Option Int) :
    Edit → IndexedStore × Except StoreError Unit
  | .replace text => s.replaceAll uri version text
  | .splice range text => s.replaceRange uri version range text

/-- Edits one after the other, each as a change of its own, up to the first that is refused. -/
def editEach (s : IndexedStore) (uri : String) (version : Option Int) :
    List Edit → IndexedStore × Except StoreError Unit
  | [] => (s, .ok ())
  | e :: rest =>
    let s' := (s.edit uri version e).1
    match (s.edit uri version e).2 with
    | .ok () => s'.editEach uri version rest
    | .error cause => (s', .error cause)

/-- An edit of its own is a batch of one. -/
theorem edit_eq (s : IndexedStore) (uri : String) (version : Option Int) (e : Edit) :
    s.edit uri version e = s.applyEdits uri version [e] := by
  cases e <;> rfl

variable {version : Option Int}

theorem editEach_of_ok {e : Edit} (h : (s.edit uri version e).2 = .ok ()) (rest : List Edit) :
    s.editEach uri version (e :: rest) =
      (s.edit uri version e).1.editEach uri version rest := by
  rw [editEach, h]

theorem editEach_of_error {e : Edit} {cause : StoreError}
    (h : (s.edit uri version e).2 = .error cause) (rest : List Edit) :
    (s.editEach uri version (e :: rest)).2 = .error cause := by
  rw [editEach, h]

/-- Edits one at a time are refused as the first of them is that is refused. -/
theorem editEach_eq_error_iff {cause : StoreError} :
    (s.editEach uri version edits).2 = .error cause ↔
      ∃ earlier e later, edits = earlier ++ e :: later ∧
        (s.editEach uri version earlier).2 = .ok () ∧
        ((s.editEach uri version earlier).1.edit uri version e).2 = .error cause := by
  induction edits generalizing s with
  | nil => simp [editEach]
  | cons first rest ih =>
    cases hfirst : (s.edit uri version first).2 with
    | error cause' =>
      rw [editEach_of_error hfirst]
      constructor
      · rintro ⟨rfl⟩
        exact ⟨[], first, rest, rfl, rfl, hfirst⟩
      · rintro ⟨earlier, e, later, hsplit, hearlier, he⟩
        cases earlier with
        | nil =>
          obtain ⟨rfl, -⟩ := List.cons.inj hsplit
          exact hfirst.symm.trans he
        | cons first' earlier =>
          obtain ⟨rfl, -⟩ := List.cons.inj hsplit
          rw [editEach_of_error hfirst] at hearlier
          cases hearlier
    | ok =>
      rw [editEach_of_ok hfirst, ih]
      constructor
      · rintro ⟨earlier, e, later, rfl, hearlier, he⟩
        refine ⟨first :: earlier, e, later, rfl, ?_, ?_⟩
        · rwa [editEach_of_ok hfirst]
        · rwa [editEach_of_ok hfirst]
      · rintro ⟨earlier, e, later, hsplit, hearlier, he⟩
        cases earlier with
        | nil =>
          obtain ⟨rfl, -⟩ := List.cons.inj hsplit
          cases hfirst.symm.trans he
        | cons first' earlier =>
          obtain ⟨rfl, rfl⟩ := List.cons.inj hsplit
          rw [editEach_of_ok hfirst] at hearlier he
          exact ⟨earlier, e, later, rfl, hearlier, he⟩

/-! ## What they make of a document -/

theorem IsFormed.edit (h : s.IsFormed) (uri : String) (version : Option Int) (e : Edit) :
    (s.edit uri version e).1.IsFormed := by
  rw [edit_eq]
  exact h.perform (.applyEdits uri version [e])

/-- A batch of edits that fit the text of a document. -/
theorem IsFormed.applyEdits_of_fits (h : s.IsFormed) (hd : s.documents.find? uri = some d)
    (version : Option Int) (hedits : LanguageServer.applyEdits d.content edits = .ok content) :
    (s.applyEdits uri version edits).2 = .ok () ∧
      ∃ d', (s.applyEdits uri version edits).1.documents.find? uri = some d' ∧
        d'.toDocument = d.toDocument.changed version content := by
  rw [h.applyEdits_eq hd, hedits]
  exact ⟨rfl, _, (Table.find?_insert ..).trans (if_pos rfl), d.toDocument_edited version hedits⟩

theorem IsFormed.applyEdits_of_misfit (h : s.IsFormed) (hd : s.documents.find? uri = some d)
    (version : Option Int) {cause : PositionError}
    (hedits : LanguageServer.applyEdits d.content edits = .error cause) :
    (s.applyEdits uri version edits).2 = .error (.misfit uri cause) := by
  rw [h.applyEdits_eq hd, hedits]

/-- An edit of its own that fits the text of a document. -/
theorem IsFormed.edit_of_fits (h : s.IsFormed) (hd : s.documents.find? uri = some d)
    (version : Option Int) {e : Edit} (he : e.apply d.content = .ok content) :
    (s.edit uri version e).2 = .ok () ∧
      ∃ d', (s.edit uri version e).1.documents.find? uri = some d' ∧
        d'.content = content ∧ d'.version = nextVersion d.version version := by
  obtain ⟨hok, d', hd', hchanged⟩ :=
    h.applyEdits_of_fits hd version ((applyEdits_singleton _ e).trans he)
  rw [edit_eq]
  exact ⟨hok, d', hd', congrArg Document.content hchanged, congrArg Document.version hchanged⟩

/-- Edits one at a time that fit, each the text that the earlier ones left. -/
theorem IsFormed.editEach_of_fits (h : s.IsFormed) (hd : s.documents.find? uri = some d)
    (version : Option Int) (hne : edits ≠ [])
    (hedits : LanguageServer.applyEdits d.content edits = .ok content) :
    (s.editEach uri version edits).2 = .ok () ∧
      ∃ d', (s.editEach uri version edits).1.documents.find? uri = some d' ∧
        d'.content = content ∧ d'.version = nextVersion d.version version := by
  induction edits generalizing s d with
  | nil => exact absurd rfl hne
  | cons e rest ih =>
    rw [applyEdits_cons] at hedits
    cases he : e.apply d.content with
    | error cause =>
      rw [he] at hedits
      cases hedits
    | ok next =>
      rw [he] at hedits
      obtain ⟨hok, d', hd', hcontent, hversion⟩ := h.edit_of_fits hd version he
      rw [editEach_of_ok hok]
      cases rest with
      | nil =>
        obtain rfl := Except.ok.inj hedits
        exact ⟨rfl, d', hd', hcontent, hversion⟩
      | cons e' rest =>
        obtain ⟨hrest, d'', hd'', htext, hlast⟩ :=
          ih (h.edit uri version e) hd' (List.cons_ne_nil e' rest) (hcontent ▸ hedits)
        refine ⟨hrest, d'', hd'', htext, ?_⟩
        rw [hlast, hversion, nextVersion_nextVersion]

/-- Edits one at a time of which one does not fit. -/
theorem IsFormed.editEach_of_misfit (h : s.IsFormed) (hd : s.documents.find? uri = some d)
    (version : Option Int) {cause : PositionError}
    (hedits : LanguageServer.applyEdits d.content edits = .error cause) :
    (s.editEach uri version edits).2 = .error (.misfit uri cause) := by
  induction edits generalizing s d with
  | nil => cases hedits
  | cons e rest ih =>
    rw [applyEdits_cons] at hedits
    cases he : e.apply d.content with
    | error cause' =>
      rw [he] at hedits
      obtain rfl := Except.error.inj hedits
      refine editEach_of_error ?_ rest
      rw [edit_eq]
      exact h.applyEdits_of_misfit hd version ((applyEdits_singleton _ e).trans he)
    | ok next =>
      rw [he] at hedits
      obtain ⟨hok, d', hd', hcontent, -⟩ := h.edit_of_fits hd version he
      rw [editEach_of_ok hok]
      exact ih (h.edit uri version e) hd' (hcontent ▸ hedits)

/-! ## Batches -/

theorem applyEdits_of_unknown (hd : s.documents.find? uri = none) (version : Option Int)
    (edits : List Edit) :
    (s.applyEdits uri version edits).2 = .error (.unknown uri) := by
  rw [applyEdits, get_of_find?_eq_none hd]

/-- A batch is refused as its edits one at a time are. -/
theorem IsFormed.applyEdits_snd (h : s.IsFormed) (uri : String) (version : Option Int)
    (hne : edits ≠ []) :
    (s.applyEdits uri version edits).2 = (s.editEach uri version edits).2 := by
  cases hd : s.documents.find? uri with
  | none =>
    obtain ⟨e, rest, rfl⟩ := List.exists_cons_of_ne_nil hne
    rw [applyEdits_of_unknown hd, editEach_of_error]
    rw [edit_eq, applyEdits_of_unknown hd]
  | some d =>
    cases hedits : LanguageServer.applyEdits d.content edits with
    | error cause =>
      rw [h.applyEdits_of_misfit hd version hedits, h.editEach_of_misfit hd version hedits]
    | ok content =>
      rw [(h.applyEdits_of_fits hd version hedits).1,
        (h.editEach_of_fits hd version hne hedits).1]

/-- A batch that succeeds makes of the document what its edits make of it one at a time. -/
theorem IsFormed.same_of_applyEdits (h : s.IsFormed) (hne : edits ≠ [])
    (hok : (s.applyEdits uri version edits).2 = .ok ()) :
    ∃ d d', (s.applyEdits uri version edits).1.documents.find? uri = some d ∧
      (s.editEach uri version edits).1.documents.find? uri = some d' ∧
      d.content = d'.content ∧ d.version = d'.version := by
  cases hd : s.documents.find? uri with
  | none =>
    rw [applyEdits_of_unknown hd] at hok
    cases hok
  | some d =>
    cases hedits : LanguageServer.applyEdits d.content edits with
    | error cause =>
      rw [h.applyEdits_of_misfit hd version hedits] at hok
      cases hok
    | ok content =>
      obtain ⟨-, d', hd', hchanged⟩ := h.applyEdits_of_fits hd version hedits
      obtain ⟨-, d'', hd'', hcontent, hversion⟩ := h.editEach_of_fits hd version hne hedits
      refine ⟨d', d'', hd', hd'', ?_, ?_⟩
      · exact (congrArg Document.content hchanged).trans hcontent.symm
      · exact (congrArg Document.version hchanged).trans hversion.symm

/-- A batch is its edits one at a time, all or none.  It succeeds exactly if its edits succeed one
at a time, and then the document has the same text and version in the end.  It is refused as the
first edit is that does not fit, and then the documents, what is open and the generation stay as
they were. -/
theorem applyEdits_agrees (hs : s.Reached) (uri : String) (version : Option Int)
    (hne : edits ≠ []) :
    ((s.applyEdits uri version edits).2 = .ok () ↔ (s.editEach uri version edits).2 = .ok ()) ∧
    ((s.applyEdits uri version edits).2 = .ok () →
      ∃ d d', (s.applyEdits uri version edits).1.documents.find? uri = some d ∧
        (s.editEach uri version edits).1.documents.find? uri = some d' ∧
        d.content = d'.content ∧ d.version = d'.version) ∧
    (∀ cause, (s.applyEdits uri version edits).2 = .error cause ↔
      ∃ earlier e later, edits = earlier ++ e :: later ∧
        (s.editEach uri version earlier).2 = .ok () ∧
        ((s.editEach uri version earlier).1.edit uri version e).2 = .error cause) ∧
    ∀ cause, (s.applyEdits uri version edits).2 = .error cause →
      (s.applyEdits uri version edits).1.view = s.view := by
  have h := hs.isFormed
  have hagree := h.applyEdits_snd uri version hne
  refine ⟨by rw [hagree], h.same_of_applyEdits hne, fun cause => ?_, fun cause hcause => ?_⟩
  · rw [hagree]
    exact editEach_eq_error_iff
  · have hview := view_applyEdits h uri version edits
    rw [hcause] at hview
    cases hedits : s.view.applyEdits uri version edits with
    | error e =>
      rw [hedits] at hview
      exact congrArg Prod.fst hview
    | ok s' =>
      rw [hedits] at hview
      cases congrArg Prod.snd hview

/-- A document that was asked for its index, and then replaced as a whole. -/
def replacedStore : IndexedStore :=
  empty.run [.track "score" (.str "toy") (some 1) "a𝄞b\r\n𝄢", .lineIndex "score",
    .replaceAll "score" (some 2) "x\ny"]

/-- A line is broken, and then a range is edited that is there only since. -/
def breakingEdits : List Edit :=
  [.splice ⟨⟨0, 1⟩, ⟨0, 1⟩⟩ "\n𝄞\n", .splice ⟨⟨1, 0⟩, ⟨3, 1⟩⟩ "z"]

/-- The same, and then an edit of a line that was there only in between. -/
def strayingEdits : List Edit := breakingEdits ++ [.splice ⟨⟨2, 0⟩, ⟨2, 0⟩⟩ "z"]

/-- The batch reads the second range in the text that the first edit made, as the edits one at a
time do; and it is refused for the third as a whole. -/
theorem applyEdits_agrees_breaking :
    (∃ d d', (replacedStore.applyEdits "score" (some 3) breakingEdits).1.documents.find? "score" =
        some d ∧
      (replacedStore.editEach "score" (some 3) breakingEdits).1.documents.find? "score" = some d' ∧
      d.content = d'.content ∧ d.version = d'.version) ∧
    (replacedStore.applyEdits "score" (some 3) strayingEdits).2 =
      .error (.misfit "score" (.noSuchLine 2 2)) ∧
    (replacedStore.applyEdits "score" (some 3) strayingEdits).1.view = replacedStore.view := by
  have hreached : replacedStore.Reached := ⟨_, rfl⟩
  obtain ⟨-, hsame, -, -⟩ := applyEdits_agrees hreached "score" (some 3)
    (List.cons_ne_nil _ _ : breakingEdits ≠ [])
  obtain ⟨-, -, -, hrefused⟩ := applyEdits_agrees hreached "score" (some 3)
    (List.cons_ne_nil _ _ : strayingEdits ≠ [])
  have hfits : (replacedStore.applyEdits "score" (some 3) breakingEdits).2 = .ok () := by rfl
  have hmisfit : (replacedStore.applyEdits "score" (some 3) strayingEdits).2 =
      .error (.misfit "score" (.noSuchLine 2 2)) := by rfl
  exact ⟨hsame hfits, hmisfit, hrefused _ hmisfit⟩

end IndexedStore

end LanguageServer
