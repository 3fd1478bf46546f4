/-!
# Tables that remember insertion order

A finite map from keys to values whose entries keep the place at which their key
was first inserted.  Replacing a value leaves its key where it is; erasing a key
and inserting it again moves it to the end.  Reports list documents, units and
declarations in this order, so the order is part of the type.

## Main definitions

* `Table κ α` — entries in insertion order.
* `Table.find?`, `Table.insert`, `Table.erase` — look-up, replacement in place, removal.
* `Table.keys`, `Table.values` — the two columns.
-/

namespace LanguageServer

universe u v

/-- Entries in the order in which their keys were first inserted. -/
structure Table (κ : Type u) (α : Type v) where
  entries : List (κ × α)
  deriving Repr

namespace Table

variable {κ : Type u} {α : Type v}

/-- The table without entries. -/
def empty : Table κ α := ⟨[]⟩

instance : EmptyCollection (Table κ α) := ⟨empty⟩

instance : Inhabited (Table κ α) := ⟨empty⟩

/-- The keys, in insertion order. -/
def keys (t : Table κ α) : List κ := t.entries.map (·.1)

/-- The values, in the order of their keys. -/
def values (t : Table κ α) : List α := t.entries.map (·.2)

/-- The number of entries. -/
def size (t : Table κ α) : Nat := t.entries.length

/-- Applies `f` to every value and leaves the keys alone. -/
def mapValues {β : Type v} (f : κ → α → β) (t : Table κ α) : Table κ β :=
  ⟨t.entries.map fun e => (e.1, f e.1 e.2)⟩

variable [DecidableEq κ]

/-- The value stored under `k` in a list of entries. -/
def findIn (k : κ) : List (κ × α) → Option α
  | [] => none
  | (k', a) :: rest => if k' = k then some a else findIn k rest

/-- Replaces the value under `k`, or appends a new entry at the end. -/
def insertIn (k : κ) (a : α) : List (κ × α) → List (κ × α)
  | [] => [(k, a)]
  | (k', a') :: rest => if k' = k then (k', a) :: rest else (k', a') :: insertIn k a rest

/-- The value stored under `k`. -/
def find? (t : Table κ α) (k : κ) : Option α := findIn k t.entries

/-- Whether `k` is a key. -/
def contains (t : Table κ α) (k : κ) : Bool := (t.find? k).isSome

/-- Stores `a` under `k`; a key that is already there keeps its place. -/
def insert (t : Table κ α) (k : κ) (a : α) : Table κ α := ⟨insertIn k a t.entries⟩

/-- Forgets `k`. -/
def erase (t : Table κ α) (k : κ) : Table κ α := ⟨t.entries.filter (fun e => e.1 ≠ k)⟩

/-- Inserts the entries of `l` from left to right: a repeated key keeps its first place and its
last value. -/
def ofList (l : List (κ × α)) : Table κ α := l.foldl (fun t e => t.insert e.1 e.2) empty

/-! ## What each operation does to a look-up

`find?` is the view through which the other operations are described. -/

@[simp] theorem find?_empty (k : κ) : (empty : Table κ α).find? k = none := rfl

theorem findIn_insertIn (k k' : κ) (a : α) (l : List (κ × α)) :
    findIn k' (insertIn k a l) = if k = k' then some a else findIn k' l := by
  induction l with
  | nil => simp [insertIn, findIn]
  | cons e rest ih =>
    obtain ⟨k'', a''⟩ := e
    by_cases h : k'' = k
    · subst h
      by_cases h' : k'' = k' <;> simp [insertIn, findIn, h']
    · by_cases h' : k'' = k'
      · subst h'
        simp [insertIn, findIn, h, Ne.symm h]
      · simp [insertIn, findIn, h, h', ih]

/-- After storing `a` under `k`, that key answers `a` and every other key answers as before. -/
@[simp] theorem find?_insert (t : Table κ α) (k k' : κ) (a : α) :
    (t.insert k a).find? k' = if k = k' then some a else t.find? k' :=
  findIn_insertIn k k' a t.entries

theorem findIn_filter_ne (k k' : κ) (l : List (κ × α)) :
    findIn k' (l.filter (fun e => e.1 ≠ k)) = if k = k' then none else findIn k' l := by
  induction l with
  | nil => simp [findIn]
  | cons e rest ih =>
    obtain ⟨k'', a''⟩ := e
    by_cases h : k'' = k
    · subst h
      by_cases h' : k'' = k' <;> simp_all [findIn]
    · by_cases h' : k'' = k' <;> simp_all [findIn]
      intro hk
      exact absurd hk.symm h

/-- After forgetting `k`, that key has no value and every other key answers as before. -/
@[simp] theorem find?_erase (t : Table κ α) (k k' : κ) :
    (t.erase k).find? k' = if k = k' then none else t.find? k' :=
  findIn_filter_ne k k' t.entries

theorem findIn_isSome_iff (k : κ) (l : List (κ × α)) :
    (findIn k l).isSome ↔ k ∈ l.map (·.1) := by
  induction l with
  | nil => simp [findIn]
  | cons e rest ih =>
    obtain ⟨k', a'⟩ := e
    by_cases h : k' = k
    · simp [findIn, h]
    · simp [findIn, h, ih, Ne.symm h]

/-- A key is listed exactly if a look-up finds it. -/
theorem contains_iff_mem_keys (t : Table κ α) (k : κ) : t.contains k = true ↔ k ∈ t.keys :=
  findIn_isSome_iff k t.entries

theorem map_fst_insertIn (k : κ) (a : α) (l : List (κ × α)) :
    (insertIn k a l).map (·.1) =
      if k ∈ l.map (·.1) then l.map (·.1) else l.map (·.1) ++ [k] := by
  induction l with
  | nil => simp [insertIn]
  | cons e rest ih =>
    obtain ⟨k', a'⟩ := e
    by_cases h : k' = k
    · simp [insertIn, h]
    · simp only [insertIn, h, if_false, List.map_cons, ih, List.mem_cons, Ne.symm h, false_or]
      split <;> simp

/-- Inserting a known key moves nothing; a new key goes to the end. -/
theorem keys_insert (t : Table κ α) (k : κ) (a : α) :
    (t.insert k a).keys = if k ∈ t.keys then t.keys else t.keys ++ [k] :=
  map_fst_insertIn k a t.entries

/-- Insertion never lists a key twice. -/
theorem nodup_keys_insert (t : Table κ α) (k : κ) (a : α) (h : t.keys.Nodup) :
    (t.insert k a).keys.Nodup := by
  rw [keys_insert]
  split
  · exact h
  · rename_i hk
    exact List.nodup_append.2 ⟨h, by simp, by
      intro x hx y hy hxy
      simp only [List.mem_singleton] at hy
      subst hy hxy
      exact hk hx⟩

end Table

end LanguageServer
