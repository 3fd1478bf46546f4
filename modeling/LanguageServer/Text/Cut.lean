/-!
# Cutting a text at a character

## Main definitions

* `cutFirst? x s` — the parts of `s` before and after the first `x`.
* `cutLast? x s` — the parts of `s` before and after the last `x`.
* `pieces x s` — the parts of `s` between the occurrences of `x`.
* `beginsWith lead s` — whether `s` begins with `lead`.
-/

namespace LanguageServer.Text

/-- The parts before and after the first `x`; `none` if there is no `x`. -/
def cutFirst? (x : Char) : List Char → Option (List Char × List Char)
  | [] => none
  | c :: cs =>
    if c = x then some ([], cs)
    else (cutFirst? x cs).map fun parts => (c :: parts.1, parts.2)

/-- The parts before and after the last `x`; `none` if there is no `x`. -/
def cutLast? (x : Char) : List Char → Option (List Char × List Char)
  | [] => none
  | c :: cs =>
    match cutLast? x cs with
    | some parts => some (c :: parts.1, parts.2)
    | none => if c = x then some ([], cs) else none

/-- The parts between the occurrences of `x`; at least one, perhaps empty. -/
def pieces (x : Char) : List Char → List (List Char)
  | [] => [[]]
  | c :: cs =>
    if c = x then [] :: pieces x cs
    else
      match pieces x cs with
      | [] => [[c]]
      | first :: rest => (c :: first) :: rest

/-- Whether a text begins with another. -/
def beginsWith (lead s : String) : Bool := lead.toList.isPrefixOf s.toList

theorem beginsWith_iff {lead s : String} :
    beginsWith lead s = true ↔ lead.toList <+: s.toList := by
  simp [beginsWith]

/-- A cut at the first `x` puts the text together again, and nothing before the cut is an `x`. -/
theorem cutFirst?_eq_some_iff {x : Char} {s before after : List Char} :
    cutFirst? x s = some (before, after) ↔ s = before ++ x :: after ∧ x ∉ before := by
  induction s generalizing before with
  | nil => simp [cutFirst?]
  | cons c cs ih =>
    by_cases h : c = x
    · subst h
      cases before with
      | nil => simp [cutFirst?, eq_comm]
      | cons b bs =>
        simp only [cutFirst?, if_true, Option.some.injEq, Prod.mk.injEq, List.nil_eq,
          List.cons_append, List.cons.injEq, List.mem_cons, not_or]
        exact ⟨fun h => absurd h.1 (by simp), fun h => absurd h.1.1 h.2.1⟩
    · cases before with
      | nil => simp [cutFirst?, h]
      | cons b bs =>
        simp only [cutFirst?, h, if_false, Option.map_eq_some_iff, Prod.exists, Prod.mk.injEq,
          List.cons.injEq, List.cons_append, List.mem_cons, not_or]
        constructor
        · rintro ⟨p, q, hpq, ⟨rfl, rfl⟩, rfl⟩
          obtain ⟨hcs, hx⟩ := ih.1 hpq
          exact ⟨⟨rfl, hcs⟩, fun e => h e.symm, hx⟩
        · rintro ⟨⟨rfl, hcs⟩, _, hx⟩
          exact ⟨bs, after, ih.2 ⟨hcs, hx⟩, ⟨rfl, rfl⟩, rfl⟩

/-- There is no cut exactly if there is no `x`. -/
theorem cutFirst?_eq_none_iff {x : Char} {s : List Char} : cutFirst? x s = none ↔ x ∉ s := by
  induction s with
  | nil => simp [cutFirst?]
  | cons c cs ih =>
    by_cases h : c = x
    · simp [cutFirst?, h]
    · simp [cutFirst?, h, ih, Ne.symm h]

/-- There is no last cut exactly if there is no `x`. -/
theorem cutLast?_eq_none_iff {x : Char} {s : List Char} : cutLast? x s = none ↔ x ∉ s := by
  induction s with
  | nil => simp [cutLast?]
  | cons c cs ih =>
    cases hc : cutLast? x cs with
    | none =>
      have hx := ih.1 hc
      by_cases h : c = x
      · simp [cutLast?, hc, h]
      · simp [cutLast?, hc, h, hx, Ne.symm h]
    | some parts =>
      have hx : ¬ x ∉ cs := fun hx => by simp [ih.2 hx] at hc
      simp [cutLast?, hc, hx]

/-- A cut at the last `x` puts the text together again, and nothing after the cut is an `x`. -/
theorem cutLast?_eq_some_iff {x : Char} {s before after : List Char} :
    cutLast? x s = some (before, after) ↔ s = before ++ x :: after ∧ x ∉ after := by
  induction s generalizing before after with
  | nil => simp [cutLast?]
  | cons c cs ih =>
    cases hc : cutLast? x cs with
    | none =>
      have hx := cutLast?_eq_none_iff.1 hc
      by_cases h : c = x
      · subst h
        simp only [cutLast?, hc, if_true, Option.some.injEq, Prod.mk.injEq]
        constructor
        · rintro ⟨rfl, rfl⟩; exact ⟨rfl, hx⟩
        · rintro ⟨hcs, ha⟩
          cases before with
          | nil => simpa using hcs
          | cons b bs =>
            simp only [List.cons_append, List.cons.injEq] at hcs
            exact absurd (hcs.2 ▸ List.mem_append_right bs List.mem_cons_self) hx
      · simp only [cutLast?, hc, h, if_false, reduceCtorEq, false_iff, not_and]
        rintro hcs _
        cases before with
        | nil => simp only [List.nil_append, List.cons.injEq] at hcs; exact h hcs.1
        | cons b bs =>
          simp only [List.cons_append, List.cons.injEq] at hcs
          exact hx (hcs.2 ▸ List.mem_append_right bs List.mem_cons_self)
    | some parts =>
      obtain ⟨p, q⟩ := parts
      simp only [cutLast?, hc, Option.some.injEq, Prod.mk.injEq]
      obtain ⟨hcs, hq⟩ := ih.1 hc
      constructor
      · rintro ⟨rfl, rfl⟩
        exact ⟨by rw [hcs]; rfl, hq⟩
      · rintro ⟨h, ha⟩
        cases before with
        | nil =>
          simp only [List.nil_append, List.cons.injEq] at h
          exact absurd (h.2 ▸ hcs ▸ List.mem_append_right p List.mem_cons_self) ha
        | cons b bs =>
          simp only [List.cons_append, List.cons.injEq] at h
          have := ih.2 ⟨h.2, ha⟩
          rw [hc] at this
          simp only [Option.some.injEq, Prod.mk.injEq] at this
          exact ⟨by rw [h.1, this.1], this.2⟩

end LanguageServer.Text
