import LanguageServer.Document.Operation
import LanguageServer.Proofs.Document.Store

/-!
# Histories of the document store

What holds of a store after any operations, refused ones among them.  A refused operation
leaves the store, and any other one leaves it too or counts as a change.  So the generation
tells whether anything happened: of two stores of a history with one generation, nothing
happened in between.

## Main statements

* `DocumentStore.perform_of_error` — a refused operation changes nothing.
* `DocumentStore.perform_cases` — what an operation can do to a store.
* `DocumentStore.perform_eq_or_generation` — what changes the store counts as a change.
* `DocumentStore.run_eq_run_of_generation` — the generation identifies a store of a history.
-/

namespace LanguageServer.DocumentStore

variable {s : DocumentStore} {operation : StoreOperation} {operations : List StoreOperation}

/-! ## One operation -/

/-- What a property of stores has to hold of for an operation that answers nothing. -/
theorem perform_done {P : DocumentStore → Prop} {r : Except StoreError DocumentStore}
    (hrefused : P s) (hdone : ∀ s', r = .ok s' → P s') : P (perform.done s r).1 := by
  cases r with
  | error e => exact hrefused
  | ok s' => exact hdone s' rfl

theorem perform_done_of_error {r : Except StoreError DocumentStore} {e : StoreError}
    (h : (perform.done s r).2 = .error e) : (perform.done s r).1 = s := by
  cases r with
  | error e => rfl
  | ok s' => cases h

/-- A refused operation leaves the store as it was. -/
theorem perform_of_error {e : StoreError} (h : (s.perform operation).2 = .error e) :
    (s.perform operation).1 = s := by
  cases operation with
  | track uri language version content => cases h
  | applyEdits uri version edits => exact perform_done_of_error h
  | replaceAll uri version text => exact perform_done_of_error h
  | replaceRange uri version range text => exact perform_done_of_error h
  | bumpVersion uri version => exact perform_done_of_error h
  | close uri => exact perform_done_of_error h
  | evict uris => cases h
  | get uri => rfl
  | lineIndex uri => rfl

/-- What an operation leaves behind is the store as it was, or what an opening, a batch of edits, a
closing or an eviction makes of it. -/
theorem perform_cases {P : DocumentStore → Prop} (hself : P s)
    (htrack : ∀ uri language version content, P (s.track uri language version content))
    (hedits : ∀ uri version edits s', s.applyEdits uri version edits = .ok s' → P s')
    (hclose : ∀ uri s', s.close uri = .ok s' → P s')
    (hevict : ∀ uris, P (s.evict uris).1) (operation : StoreOperation) :
    P (s.perform operation).1 := by
  have hbatch (uri : String) (version : Option Int) (edits : List Edit) :=
    perform_done hself (hedits uri version edits)
  cases operation with
  | track uri language version content => exact htrack uri language version content
  | applyEdits uri version edits => exact hbatch uri version edits
  | replaceAll uri version text => exact hbatch uri version [.replace text]
  | replaceRange uri version range text => exact hbatch uri version [.splice range text]
  | bumpVersion uri version => exact hbatch uri version []
  | close uri => exact perform_done hself (hclose uri)
  | evict uris => exact hevict uris
  | get uri => exact hself
  | lineIndex uri => exact hself

/-- An operation leaves the store as it was, or counts as one change. -/
theorem perform_eq_or_generation (s : DocumentStore) (operation : StoreOperation) :
    (s.perform operation).1 = s ∨
      (s.perform operation).1.generation = s.generation + 1 := by
  refine perform_cases (P := fun s' => s' = s ∨ s'.generation = s.generation + 1)
    (.inl rfl) ?_ ?_ ?_ s.evict_cases operation
  · exact fun _ _ _ _ => .inr rfl
  · exact fun _ _ _ _ h => .inr (generation_applyEdits h)
  · exact fun _ _ h => .inr (generation_close h)

theorem generation_le_perform (s : DocumentStore) (operation : StoreOperation) :
    s.generation ≤ (s.perform operation).1.generation := by
  rcases s.perform_eq_or_generation operation with h | h
  · exact Nat.le_of_eq (congrArg generation h).symm
  · exact h ▸ Nat.le_succ _

theorem IsFormed.perform (h : s.IsFormed) (operation : StoreOperation) :
    (s.perform operation).1.IsFormed :=
  perform_cases h h.track (fun _ _ _ _ => h.applyEdits) (fun _ _ => h.close) h.evict operation

/-! ## Histories -/

theorem run_cons (s : DocumentStore) (operation : StoreOperation)
    (operations : List StoreOperation) :
    s.run (operation :: operations) = (s.perform operation).1.run operations := rfl

theorem run_append (s : DocumentStore) (earlier later : List StoreOperation) :
    s.run (earlier ++ later) = (s.run earlier).run later := List.foldl_append

theorem run_concat (s : DocumentStore) (operations : List StoreOperation)
    (operation : StoreOperation) :
    s.run (operations ++ [operation]) = ((s.run operations).perform operation).1 :=
  run_append s operations [operation]

theorem IsFormed.run (h : s.IsFormed) (operations : List StoreOperation) :
    (s.run operations).IsFormed := by
  induction operations generalizing s with
  | nil => exact h
  | cons operation operations ih => exact ih (h.perform operation)

theorem generation_le_run (s : DocumentStore) (operations : List StoreOperation) :
    s.generation ≤ (s.run operations).generation := by
  induction operations generalizing s with
  | nil => exact Nat.le_refl _
  | cons operation operations ih => exact Nat.le_trans (s.generation_le_perform operation) (ih _)

/-- Operations that leave the generation leave the store. -/
theorem run_eq_self_of_generation (h : (s.run operations).generation = s.generation) :
    s.run operations = s := by
  induction operations generalizing s with
  | nil => rfl
  | cons operation operations ih =>
    rw [run_cons] at h ⊢
    rcases s.perform_eq_or_generation operation with hsame | hchange
    · rw [hsame] at h ⊢
      exact ih h
    · -- A change is never taken back.
      have hle := generation_le_run (s.perform operation).1 operations
      omega

/-- Two stores of a history with one generation are the same. -/
theorem run_eq_run_of_generation {earlier later : List StoreOperation}
    (hearlier : earlier <+: operations) (hlater : later <+: operations)
    (h : (s.run earlier).generation = (s.run later).generation) :
    s.run earlier = s.run later := by
  rcases List.prefix_or_prefix_of_prefix hearlier hlater with ⟨rest, rfl⟩ | ⟨rest, rfl⟩
  · rw [run_append] at h ⊢
    exact (run_eq_self_of_generation h.symm).symm
  · rw [run_append] at h ⊢
    exact run_eq_self_of_generation h

end LanguageServer.DocumentStore
