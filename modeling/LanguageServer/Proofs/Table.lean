import LanguageServer.Table
import Mathlib.Data.List.Nodup
import Mathlib.Data.List.Pairwise

/-!
# Parts of a table

The entries of a table whose keys satisfy a predicate, in their order.  A look-up in such
a part is one in the table, and inserting under a key of the part commutes with taking
the part.

## Main definitions

* `Table.restrict` — the part of a table with certain keys.
-/

namespace LanguageServer.Table

universe u v

variable {κ : Type u} {α : Type v}

/-- The part of a table whose keys satisfy a predicate. -/
def restrict (t : Table κ α) (p : κ → Bool) : Table κ α := ⟨t.entries.filter fun e => p e.1⟩

@[simp] theorem restrict_empty (p : κ → Bool) : (empty : Table κ α).restrict p = empty := rfl

@[simp] theorem keys_restrict (t : Table κ α) (p : κ → Bool) :
    (t.restrict p).keys = t.keys.filter p := by
  simp [restrict, keys, List.filter_map, Function.comp_def]

theorem restrict_congr {t : Table κ α} {p q : κ → Bool} (h : ∀ k ∈ t.keys, p k = q k) :
    t.restrict p = t.restrict q := by
  unfold restrict
  congr 1
  exact List.filter_congr fun e he => h e.1 (List.mem_map_of_mem he)

theorem restrict_eq_self {t : Table κ α} {p : κ → Bool} (h : ∀ k ∈ t.keys, p k = true) :
    t.restrict p = t := by
  unfold restrict
  congr 1
  exact List.filter_eq_self.2 fun e he => h e.1 (List.mem_map_of_mem he)

theorem restrict_restrict (t : Table κ α) (p q : κ → Bool) :
    (t.restrict p).restrict q = t.restrict fun k => p k && q k := by
  simp [restrict, List.filter_filter, Bool.and_comm]

theorem size_restrict_le (t : Table κ α) (p : κ → Bool) : (t.restrict p).size ≤ t.size :=
  List.length_filter_le _ _

variable [DecidableEq κ]

theorem findIn_filter (p : κ → Bool) (k : κ) (l : List (κ × α)) :
    findIn k (l.filter fun e => p e.1) = if p k then findIn k l else none := by
  induction l with
  | nil => simp [findIn]
  | cons e rest ih =>
    obtain ⟨k', a⟩ := e
    by_cases hk : k' = k
    · subst hk
      cases hp : p k' <;> simp [findIn, hp, ih]
    · cases hp : p k' <;> simp [findIn, hp, ih, hk]

/-- A look-up in a part. -/
@[simp] theorem find?_restrict (t : Table κ α) (p : κ → Bool) (k : κ) :
    (t.restrict p).find? k = if p k then t.find? k else none :=
  findIn_filter p k t.entries

theorem contains_restrict (t : Table κ α) (p : κ → Bool) (k : κ) :
    (t.restrict p).contains k = (p k && t.contains k) := by
  unfold contains
  rw [find?_restrict]
  cases p k <;> rfl

theorem filter_insertIn (p : κ → Bool) (k : κ) (a : α) (l : List (κ × α)) :
    (insertIn k a l).filter (fun e => p e.1) =
      if p k then insertIn k a (l.filter fun e => p e.1) else l.filter fun e => p e.1 := by
  induction l with
  | nil => cases hp : p k <;> simp [insertIn, hp]
  | cons e rest ih =>
    obtain ⟨k', a'⟩ := e
    by_cases hk : k' = k
    · subst hk
      cases hp : p k' <;> simp [insertIn, hp]
    · cases hp : p k' <;> cases hq : p k <;> simp [insertIn, hp, hq, hk, ih]

/-- The part of a table after an insertion. -/
theorem restrict_insert (t : Table κ α) (p : κ → Bool) (k : κ) (a : α) :
    (t.insert k a).restrict p = if p k then (t.restrict p).insert k a else t.restrict p := by
  unfold restrict insert
  rw [filter_insertIn]
  split <;> rfl

theorem findIn_map {β : Type v} (f : κ → α → β) (k : κ) (l : List (κ × α)) :
    findIn k (l.map fun e => (e.1, f e.1 e.2)) = (findIn k l).map (f k) := by
  induction l with
  | nil => rfl
  | cons e rest ih =>
    obtain ⟨k', a⟩ := e
    by_cases hk : k' = k
    · subst hk
      simp [findIn]
    · simp [findIn, hk, ih]

/-- A look-up of a value to which a function was applied. -/
@[simp] theorem find?_mapValues {β : Type v} (f : κ → α → β) (t : Table κ α) (k : κ) :
    (t.mapValues f).find? k = (t.find? k).map (f k) := findIn_map f k t.entries

theorem erase_eq_restrict (t : Table κ α) (k : κ) : t.erase k = t.restrict (decide <| · ≠ k) := rfl

/-- Erasing a key that is none changes nothing. -/
theorem erase_of_not_contains {t : Table κ α} {k : κ} (h : t.contains k = false) : t.erase k = t := by
  have hk : k ∉ t.keys := fun hmem => by simp [(t.contains_iff_mem_keys k).2 hmem] at h
  rw [erase_eq_restrict]
  exact restrict_eq_self fun k' hk' => decide_eq_true fun heq => hk (heq ▸ hk')

theorem contains_eq_false_iff (t : Table κ α) (k : κ) : t.contains k = false ↔ t.find? k = none := by
  simp [contains]

theorem mem_entries_of_find? {t : Table κ α} {k : κ} {a : α} (h : t.find? k = some a) :
    (k, a) ∈ t.entries := by
  unfold find? at h
  generalize t.entries = l at h ⊢
  induction l with
  | nil => cases h
  | cons e rest ih =>
    obtain ⟨k', a'⟩ := e
    unfold findIn at h
    split at h
    · next heq => simp [← heq, Option.some.inj h]
    · exact List.mem_cons_of_mem _ (ih h)

/-- An entry is found if no other entry has its key. -/
theorem find?_of_mem_entries {t : Table κ α} {k : κ} {a : α} (hnodup : t.keys.Nodup)
    (h : (k, a) ∈ t.entries) : t.find? k = some a := by
  unfold find?
  unfold keys at hnodup
  generalize t.entries = l at h hnodup ⊢
  induction l with
  | nil => cases h
  | cons e rest ih =>
    obtain ⟨k', a'⟩ := e
    obtain ⟨hnew, hrest⟩ := List.nodup_cons.1 hnodup
    unfold findIn
    rcases List.mem_cons.1 h with heq | h
    · obtain ⟨rfl, rfl⟩ := Prod.mk.inj heq
      rw [if_pos rfl]
    · have hne : k' ≠ k := fun heq => hnew (List.mem_map.2 ⟨_, h, heq.symm⟩)
      rw [if_neg hne]
      exact ih h hrest

/-- What the values of a table yield without repetition is apart for two keys. -/
theorem disjoint_of_nodup {β : Type v} {f : α → List β} {t : Table κ α}
    (hnodup : (t.values.flatMap f).Nodup) {k k' : κ} (hne : k ≠ k') {a b : α}
    (ha : t.find? k = some a) (hb : t.find? k' = some b) : (f a).Disjoint (f b) := by
  rw [values, List.flatMap_map, List.nodup_flatMap] at hnodup
  have : Std.Symm (Function.onFun List.Disjoint fun e : κ × α => f e.2) :=
    ⟨fun _ _ => List.disjoint_symm⟩
  exact hnodup.2.forall (mem_entries_of_find? ha) (mem_entries_of_find? hb)
    fun heq => hne (congrArg Prod.fst heq)

theorem nodup_of_nodup {β : Type v} {f : α → List β} {t : Table κ α}
    (hnodup : (t.values.flatMap f).Nodup) {k : κ} {a : α} (ha : t.find? k = some a) :
    (f a).Nodup := by
  rw [values, List.flatMap_map, List.nodup_flatMap] at hnodup
  exact hnodup.1 _ (mem_entries_of_find? ha)

/-- The entries of one table put into another. -/
theorem find?_foldl_insert {t : Table κ α} (hnodup : t.keys.Nodup) (s : Table κ α) (k : κ) :
    (t.entries.foldl (fun s e => s.insert e.1 e.2) s).find? k = (t.find? k).or (s.find? k) := by
  unfold find? at *
  unfold keys at hnodup
  generalize t.entries = l at hnodup ⊢
  induction l generalizing s with
  | nil => rfl
  | cons e rest ih =>
    obtain ⟨k', a⟩ := e
    obtain ⟨hnew, hrest⟩ := List.nodup_cons.1 hnodup
    rw [List.foldl_cons, ih _ hrest]
    show (findIn k rest).or ((s.insert k' a).find? k) = (findIn k ((k', a) :: rest)).or (s.find? k)
    rw [find?_insert, findIn]
    split
    · next heq =>
      have hnone : findIn k rest = none := by
        rw [← Option.not_isSome_iff_eq_none, findIn_isSome_iff]
        exact heq ▸ hnew
      rw [hnone]
      rfl
    · rfl

/-- A function is applied to what is inserted. -/
theorem mapValues_insert {β : Type v} (f : κ → α → β) (t : Table κ α) (k : κ) (a : α) :
    (t.insert k a).mapValues f = (t.mapValues f).insert k (f k a) := by
  unfold insert mapValues
  congr 1
  induction t.entries with
  | nil => rfl
  | cons e rest ih =>
    obtain ⟨k', a'⟩ := e
    by_cases hk : k' = k
    · simp [insertIn, hk]
    · simp [insertIn, hk, ih]

theorem mapValues_erase {β : Type v} (f : κ → α → β) (t : Table κ α) (k : κ) :
    (t.erase k).mapValues f = (t.mapValues f).erase k := by
  simp [erase, mapValues, List.filter_map, Function.comp_def]

theorem contains_mapValues {β : Type v} (f : κ → α → β) (t : Table κ α) (k : κ) :
    (t.mapValues f).contains k = t.contains k := by
  simp [contains]

/-- A value that counts like the earlier one under its key changes nothing. -/
theorem mapValues_insert_of_find? {β : Type v} {f : κ → α → β} {t : Table κ α} {k : κ} {a b : α}
    (hfind : t.find? k = some b) (hsame : f k a = f k b) :
    (t.insert k a).mapValues f = t.mapValues f := by
  unfold find? at hfind
  unfold insert mapValues
  congr 1
  generalize t.entries = l at hfind ⊢
  induction l with
  | nil => cases hfind
  | cons e rest ih =>
    obtain ⟨k', a'⟩ := e
    unfold findIn at hfind
    unfold insertIn
    split at hfind
    · next heq =>
      subst heq
      obtain rfl := Option.some.inj hfind
      simp [hsame]
    · next hne =>
      rw [if_neg hne, List.map_cons, List.map_cons, ih hfind]

/-- A table that is filled one entry after the other has the last one of a key. -/
theorem find?_ofList (l : List (κ × α)) (k : κ) :
    (ofList l).find? k = l.reverse.findSome? fun e => if e.1 = k then some e.2 else none := by
  have hfold (s : Table κ α) : (l.foldl (fun t e => t.insert e.1 e.2) s).find? k =
      (l.reverse.findSome? fun e => if e.1 = k then some e.2 else none).or (s.find? k) := by
    induction l generalizing s with
    | nil => rfl
    | cons e rest ih =>
      rw [List.foldl_cons, ih, find?_insert, List.reverse_cons, List.findSome?_append,
        List.findSome?_singleton, Option.or_assoc]
      split <;> rfl
  rw [ofList, hfold, find?_empty, Option.or_none]

theorem findIn_append (k : κ) (l l' : List (κ × α)) :
    findIn k (l ++ l') = (findIn k l).or (findIn k l') := by
  induction l with
  | nil => rfl
  | cons e rest ih =>
    simp only [List.cons_append, findIn]
    split
    · rfl
    · exact ih

theorem insertIn_of_notMem {k : κ} {a : α} {l : List (κ × α)} (h : k ∉ l.map (·.1)) :
    insertIn k a l = l ++ [(k, a)] := by
  induction l with
  | nil => rfl
  | cons e rest ih =>
    simp only [List.map_cons, List.mem_cons, not_or] at h
    simp only [insertIn, if_neg (Ne.symm h.1), ih h.2, List.cons_append]

/-- What is inserted under a new key comes last. -/
theorem entries_insert_of_new {t : Table κ α} {k : κ} (h : t.contains k = false) (a : α) :
    (t.insert k a).entries = t.entries ++ [(k, a)] := by
  refine insertIn_of_notMem fun hmem => ?_
  rw [(contains_iff_mem_keys t k).2 hmem] at h
  cases h

theorem contains_insert (t : Table κ α) (k k' : κ) (a : α) :
    (t.insert k a).contains k' = true ↔ k = k' ∨ t.contains k' = true := by
  simp only [contains, find?_insert]
  split
  · next h => simp [h]
  · next h => simp [h]

theorem mem_insertIn {k : κ} {a : α} {l : List (κ × α)} {e : κ × α} (h : e ∈ insertIn k a l) :
    e = (k, a) ∨ e ∈ l := by
  induction l with
  | nil => exact .inl (List.mem_singleton.1 h)
  | cons e' rest ih =>
    obtain ⟨k', a'⟩ := e'
    unfold insertIn at h
    split at h
    · next heq =>
      rcases List.mem_cons.1 h with rfl | h
      · exact .inl (by rw [heq])
      · exact .inr (List.mem_cons_of_mem _ h)
    · rcases List.mem_cons.1 h with rfl | h
      · exact .inr List.mem_cons_self
      · exact (ih h).imp_right (List.mem_cons_of_mem _)

end LanguageServer.Table
