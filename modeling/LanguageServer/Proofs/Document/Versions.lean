import LanguageServer.Proofs.Document.History
import Mathlib.Data.List.Induction

/-!
# Versions and revisions

The client numbers the texts of a document as it likes: with gaps, out of order, or not at
all.  The store keeps the greatest number that it was told since the document was opened
last, and counts the changes itself.  What becomes of one document under an operation is
said once, and both rules are read off it.

## Main definitions

* `DocumentStore.change?` — the version that a successful change of a document names.
* `DocumentStore.Supplies` — the versions that a history supplies since the latest opening.
* `DocumentStore.Fate` — what becomes of a document under an operation.

## Main statements

* `DocumentStore.fate_perform` — every operation treats a document in one of three ways.
* `DocumentStore.version_run` — versions and revisions in every history of the store.
-/

namespace LanguageServer

/-- The next version is the greatest of all, the new one among them. -/
theorem max?_append_toList (l : List Int) (v : Option Int) :
    (l ++ v.toList).max? = nextVersion l.max? v := by
  cases v with
  | none => simp [nextVersion]
  | some v =>
    cases l with
    | nil => rfl
    | cons first rest =>
      rw [List.cons_append, List.max?_cons', List.max?_cons', List.foldl_append]
      simp only [Option.toList_some, List.foldl_cons, List.foldl_nil, nextVersion]
      split
      · next hlt => rw [Int.max_eq_left (Int.le_of_lt hlt)]
      · next hle => rw [Int.max_eq_right (Int.not_lt.1 hle)]

namespace StoreOperation

/-- Whether an operation opens a document. -/
def opens (uri : String) : StoreOperation → Bool
  | .track u _ _ _ => u == uri
  | _ => false

/-- The version that an operation names for a document, if it is a change of that document. -/
def versionFor? (uri : String) : StoreOperation → Option (Option Int)
  | .applyEdits u version _ => if u = uri then some version else none
  | .replaceAll u version _ => if u = uri then some version else none
  | .replaceRange u version _ _ => if u = uri then some version else none
  | .bumpVersion u version => if u = uri then some version else none
  | _ => none

end StoreOperation

namespace DocumentStore

variable {s : DocumentStore} {uri : String} {operation : StoreOperation}

/-- The version that an operation names for a document, if it is a change of that document and
succeeds. -/
def change? (s : DocumentStore) (uri : String) (operation : StoreOperation) :
    Option (Option Int) :=
  match (s.perform operation).2 with
  | .ok _ => operation.versionFor? uri
  | .error _ => none

/-- The explicit versions that successful changes among the operations supply for a document. -/
def suppliedVersions (s : DocumentStore) (uri : String) : List StoreOperation → List Int
  | [] => []
  | operation :: rest =>
    (s.change? uri operation).join.toList ++ (s.perform operation).1.suppliedVersions uri rest

/-! ## One document under an operation -/

/-- What becomes of a document under an operation. -/
inductive Fate (s : DocumentStore) (uri : String) (operation : StoreOperation) : Prop where
  /-- It is opened.  If it was tracked, it continues its revisions. -/
  | opened (language : Json) (version : Option Int) (content : String)
    (hoperation : operation = .track uri language version content)
    (hfind : (s.perform operation).1.find? uri = some
      { uri, language, version, content, revision := (s.find? uri).elim 0 (·.revision + 1) })
  /-- It is changed. -/
  | changed (d : Document) (version : Option Int) (content : String) (hd : s.find? uri = some d)
    (hopens : operation.opens uri = false) (hchange : s.change? uri operation = some version)
    (hfind : (s.perform operation).1.find? uri = some (d.changed version content))
  /-- It is left alone or forgotten. -/
  | left (hopens : operation.opens uri = false) (hchange : s.change? uri operation = none)
    (hfind : (s.perform operation).1.find? uri = s.find? uri ∨
      (s.perform operation).1.find? uri = none)

theorem fate_track (s : DocumentStore) (uri u : String) (language : Json) (version : Option Int)
    (content : String) : Fate s uri (.track u language version content) := by
  by_cases hu : u = uri
  · subst hu
    refine .opened language version content rfl ?_
    refine (Table.find?_insert ..).trans ((if_pos rfl).trans ?_)
    cases s.find? u <;> rfl
  · exact .left (beq_false_of_ne hu) rfl (.inl ((Table.find?_insert ..).trans (if_neg hu)))

/-- What becomes of a document under a batch of edits, of itself or of another document. -/
theorem fate_applyEdits {u : String} {version : Option Int} {edits : List Edit}
    (hperform : s.perform operation = perform.done s (s.applyEdits u version edits))
    (hversion : operation.versionFor? uri = if u = uri then some version else none)
    (hopens : operation.opens uri = false) : Fate s uri operation := by
  cases hedits : s.applyEdits u version edits with
  | error e =>
    rw [hedits] at hperform
    exact .left hopens (by rw [change?, hperform]; rfl) (.inl (by rw [hperform]; rfl))
  | ok s' =>
    obtain ⟨d, content, hd, -, rfl⟩ := applyEdits_eq_ok hedits
    rw [hedits] at hperform
    have hchange : s.change? uri operation = operation.versionFor? uri := by
      rw [change?, hperform]
      rfl
    have hfind : (s.perform operation).1.find? uri =
        if u = uri then some (d.changed version content) else s.find? uri := by
      rw [hperform]
      exact Table.find?_insert ..
    by_cases hu : u = uri
    · subst hu
      rw [if_pos rfl] at hversion hfind
      exact .changed d version content hd hopens (hchange.trans hversion) hfind
    · rw [if_neg hu] at hversion hfind
      exact .left hopens (hchange.trans hversion) (.inl hfind)

/-- Every operation opens a document, changes it, or leaves or forgets it. -/
theorem fate_perform (s : DocumentStore) (uri : String) (operation : StoreOperation) :
    Fate s uri operation := by
  have hnone (h : operation.versionFor? uri = none) : s.change? uri operation = none := by
    unfold change?
    cases (s.perform operation).2 with
    | error e => rfl
    | ok answer => exact h
  cases operation with
  | track u language version content => exact s.fate_track uri u language version content
  | applyEdits u version edits => exact fate_applyEdits rfl rfl rfl
  | replaceAll u version text => exact fate_applyEdits rfl rfl rfl
  | replaceRange u version range text => exact fate_applyEdits rfl rfl rfl
  | bumpVersion u version => exact fate_applyEdits rfl rfl rfl
  | close u =>
    refine .left rfl (hnone rfl) (.inl (perform_done (P := fun s' => s'.find? uri = s.find? uri)
      rfl fun s' hclose => ?_))
    obtain ⟨-, rfl⟩ := close_eq_ok hclose
    rfl
  | evict uris =>
    refine .left rfl (hnone rfl) ?_
    have hfind : (s.evict uris).1.find? uri = _ :=
      (congrArg (Table.find? · uri) (s.documents_evict uris)).trans (Table.find?_restrict ..)
    show (s.evict uris).1.find? uri = s.find? uri ∨ (s.evict uris).1.find? uri = none
    rw [hfind]
    split
    · exact .inl rfl
    · exact .inr rfl
  | get u => exact .left rfl (hnone rfl) (.inl rfl)
  | lineIndex u => exact .left rfl (hnone rfl) (.inl rfl)

/-! ## Revisions -/

/-- A document that stays tracked counts each opening and each successful change. -/
theorem revision_perform {d d' : Document} (hd : s.find? uri = some d)
    (hd' : (s.perform operation).1.find? uri = some d') :
    d'.revision = if operation.opens uri = true ∨ (s.change? uri operation).isSome = true
      then d.revision + 1 else d.revision := by
  cases s.fate_perform uri operation with
  | opened language version content hoperation hfind =>
    obtain rfl := Option.some.inj (hfind.symm.trans hd')
    rw [if_pos (.inl (by simp [hoperation, StoreOperation.opens])), hd]
    rfl
  | changed d₀ version content hd₀ hopens hchange hfind =>
    obtain rfl := Option.some.inj (hd₀.symm.trans hd)
    obtain rfl := Option.some.inj (hfind.symm.trans hd')
    rw [if_pos (.inr (by rw [hchange]; rfl))]
    rfl
  | left hopens hchange hfind =>
    rw [if_neg (by simp [hopens, hchange])]
    rcases hfind with hfind | hfind
    · rw [Option.some.inj (hd'.symm.trans (hfind.trans hd))]
    · rw [hfind] at hd'
      cases hd'

/-! ## Versions -/

theorem suppliedVersions_concat (s : DocumentStore) (uri : String)
    (operations : List StoreOperation) (operation : StoreOperation) :
    s.suppliedVersions uri (operations ++ [operation]) =
      s.suppliedVersions uri operations ++
        ((s.run operations).change? uri operation).join.toList := by
  induction operations generalizing s with
  | nil => exact List.append_nil _
  | cons first rest ih =>
    rw [List.cons_append, suppliedVersions, suppliedVersions, ih, List.append_assoc]
    rfl

/-- The explicit versions that a history supplies for a document since it was opened last: that of
the opening, and those of the successful changes behind it. -/
inductive Supplies (uri : String) : List StoreOperation → List Int → Prop where
  | intro (before : List StoreOperation) (language : Json) (version : Option Int)
    (content : String) (since : List StoreOperation)
    (hsince : ∀ operation ∈ since, operation.opens uri = false) :
    Supplies uri (before ++ .track uri language version content :: since)
      (version.toList ++
        (empty.run (before ++ [.track uri language version content])).suppliedVersions uri since)

theorem supplies_track (operations : List StoreOperation) (uri : String) (language : Json)
    (version : Option Int) (content : String) :
    Supplies uri (operations ++ [.track uri language version content]) version.toList := by
  have h : Supplies uri (operations ++ [.track uri language version content])
      (version.toList ++ []) := .intro operations language version content [] (by simp)
  rwa [List.append_nil] at h

/-- What an operation supplies that does not open the document. -/
theorem Supplies.concat {operations : List StoreOperation} {versions : List Int}
    (h : Supplies uri operations versions) (hopens : operation.opens uri = false) :
    Supplies uri (operations ++ [operation])
      (versions ++ ((empty.run operations).change? uri operation).join.toList) := by
  obtain ⟨before, language, version, content, since, hsince⟩ := h
  have hrun : (empty.run (before ++ [.track uri language version content])).run since =
      empty.run (before ++ .track uri language version content :: since) := by
    rw [← run_append, List.append_assoc]
    rfl
  have hsupplied := suppliedVersions_concat
    (empty.run (before ++ [.track uri language version content])) uri since operation
  rw [hrun] at hsupplied
  rw [List.append_assoc before, List.append_assoc version.toList, ← hsupplied]
  refine .intro before language version content _ fun o ho => ?_
  rcases List.mem_append.1 ho with ho | ho
  · exact hsince o ho
  · exact List.mem_singleton.1 ho ▸ hopens

/-- The version of a document is the greatest of those supplied since it was opened last. -/
theorem exists_supplies_of_find? {operations : List StoreOperation} {d : Document}
    (h : (empty.run operations).find? uri = some d) :
    ∃ versions, Supplies uri operations versions ∧ d.version = versions.max? := by
  induction operations using List.reverseRecOn generalizing d with
  | nil => cases h
  | append_singleton operations operation ih =>
    rw [run_concat] at h
    cases (empty.run operations).fate_perform uri operation with
    | opened language version content hoperation hfind =>
      obtain rfl := Option.some.inj (hfind.symm.trans h)
      refine ⟨_, hoperation ▸ supplies_track operations uri language version content, ?_⟩
      cases version <;> rfl
    | changed d₀ version content hd₀ hopens hchange hfind =>
      obtain rfl := Option.some.inj (hfind.symm.trans h)
      obtain ⟨versions, hsupplies, hversion⟩ := ih hd₀
      refine ⟨_, hsupplies.concat hopens, ?_⟩
      rw [hchange]
      show nextVersion d₀.version version = _
      rw [hversion]
      exact (max?_append_toList versions version).symm
    | left hopens hchange hfind =>
      -- It was not forgotten, since it is found.
      have hd : (empty.run operations).find? uri = some d := by
        rcases hfind with hfind | hfind
        · exact hfind.symm.trans h
        · rw [hfind] at h
          cases h
      obtain ⟨versions, hsupplies, hversion⟩ := ih hd
      refine ⟨_, hsupplies.concat hopens, ?_⟩
      rw [hchange]
      exact hversion.trans (congrArg List.max? (List.append_nil versions).symm)

/-- Versions and revisions in every history.  The version of a document is the greatest of those
that its latest opening and the successful changes since then name, in any order, open or closed;
there is none if they name none.  As long as the document is tracked, its revision goes up with
each opening and each successful change, and stays with everything else. -/
theorem version_run (operations : List StoreOperation) (uri : String) :
    (∀ d, (empty.run operations).find? uri = some d →
      ∃ versions, Supplies uri operations versions ∧ d.version = versions.max?) ∧
    ∀ operation d d', (empty.run operations).find? uri = some d →
      ((empty.run operations).perform operation).1.find? uri = some d' →
      d'.revision =
        if operation.opens uri = true ∨ ((empty.run operations).change? uri operation).isSome = true
        then d.revision + 1 else d.revision :=
  ⟨fun _ => exists_supplies_of_find?, fun _ _ _ => revision_perform⟩

/-- A document is opened with a version, changed with a lower one and a higher one, closed, and
changed without one and out of order; an edit with the highest one is refused. -/
def unorderedHistory : List StoreOperation :=
  [.track "score" (.str "toy") (some 5) "ab", .replaceAll "score" (some 4) "cd",
    .replaceRange "score" (some 9) ⟨⟨3, 0⟩, ⟨3, 0⟩⟩ "e", .bumpVersion "score" (some 7),
    .close "score", .replaceAll "score" none "f", .bumpVersion "score" (some 6)]

/-- The version is the highest one that was not refused, and the refused edit is no revision. -/
theorem version_run_unordered :
    ∃ d, (empty.run unorderedHistory).find? "score" = some d ∧ d.version = some 7 ∧
      d.revision = 4 ∧
      (∃ versions, Supplies "score" unorderedHistory versions ∧ d.version = versions.max?) ∧
      ∀ d', ((empty.run unorderedHistory).perform (.bumpVersion "score" none)).1.find? "score" =
        some d' → d'.revision = 5 := by
  obtain ⟨hversion, hrevision⟩ := version_run unorderedHistory "score"
  have hsome : ((empty.run unorderedHistory).find? "score").map (fun d => (d.version, d.revision)) =
      some (some 7, 4) := by decide +kernel
  obtain ⟨d, hd, hpair⟩ := Option.map_eq_some_iff.1 hsome
  obtain ⟨hseven, hfour⟩ := Prod.mk.inj hpair
  refine ⟨d, hd, hseven, hfour, hversion d hd, fun d' hd' => ?_⟩
  have hchange : ((empty.run unorderedHistory).change? "score" (.bumpVersion "score" none)).isSome =
      true := by decide +kernel
  rw [hrevision _ d d' hd hd', if_pos (.inr hchange), hfour]

end DocumentStore

end LanguageServer
