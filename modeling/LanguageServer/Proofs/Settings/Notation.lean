import LanguageServer.Settings.Remapping

/-!
# The notation of remappings

A remapping is read by cutting its text at the first equals sign, and what stands before
that at the last colon.  It is written without its context if that is empty.  Each of the
three parts may hold the marks, so not every remapping has a text: the lead has to be there
and to be free of both marks, and the context has to be free of equals signs.  A remapping
that has a text has no other but, if its context is empty, the same text behind a colon.

## Main definitions

* `Remapping.IsWritable` — the remapping has a text.

## Main statements

* `Remapping.parseText_eq_ok_iff` — which texts are read, and as what.
* `Remapping.parse_toString` — what becomes of a remapping that is written and then read.
-/

namespace LanguageServer.Remapping

open LanguageServer.Text

variable {text : String} {r : Remapping} {head context lead : List Char}

/-- The marks do not stand where they would be taken for those between the parts. -/
structure IsWritable (r : Remapping) : Prop where
  lead_ne : r.lead ≠ ""
  colon_notMem_lead : ':' ∉ r.lead.toList
  equals_notMem_lead : '=' ∉ r.lead.toList
  equals_notMem_context : '=' ∉ r.context.toList

/-! ## The part before the equals sign -/

/-- The lead is what stands behind the last colon, or all if there is none. -/
theorem splitHead_eq_iff :
    splitHead head = (context, lead) ↔
      ':' ∉ lead ∧ (head = context ++ ':' :: lead ∨ context = [] ∧ head = lead) := by
  unfold splitHead
  cases hcut : cutLast? ':' head with
  | none =>
    have hcolon := cutLast?_eq_none_iff.1 hcut
    simp only [Prod.mk.injEq]
    constructor
    · rintro ⟨rfl, rfl⟩
      exact ⟨hcolon, .inr ⟨rfl, rfl⟩⟩
    · rintro ⟨-, rfl | ⟨rfl, rfl⟩⟩
      · simp at hcolon
      · exact ⟨rfl, rfl⟩
  | some parts =>
    obtain ⟨before, after⟩ := parts
    simp only [Prod.mk.injEq]
    constructor
    · rintro ⟨rfl, rfl⟩
      obtain ⟨hhead, hcolon⟩ := cutLast?_eq_some_iff.1 hcut
      exact ⟨hcolon, .inl hhead⟩
    · rintro ⟨hcolon, hhead | ⟨-, rfl⟩⟩
      · rw [cutLast?_eq_some_iff.2 ⟨hhead, hcolon⟩] at hcut
        obtain ⟨rfl, rfl⟩ := Prod.mk.inj (Option.some.inj hcut)
        exact ⟨rfl, rfl⟩
      · rw [cutLast?_eq_none_iff.2 hcolon] at hcut
        cases hcut

/-- What is written before the equals sign. -/
def front (r : Remapping) : List Char :=
  if r.context = "" then r.lead.toList else r.context.toList ++ ':' :: r.lead.toList

theorem toList_toString (r : Remapping) :
    r.toString.toList = r.front ++ '=' :: r.target.toList := by
  unfold toString front
  by_cases hcontext : r.context = "" <;> simp [hcontext]

namespace IsWritable

theorem equals_notMem_front (h : r.IsWritable) : '=' ∉ r.front := by
  unfold front
  split
  · exact h.equals_notMem_lead
  · simp [h.equals_notMem_context, h.equals_notMem_lead]

/-- What is written is cut where it was put together. -/
theorem splitHead_front (h : r.IsWritable) :
    splitHead r.front = (r.context.toList, r.lead.toList) := by
  refine splitHead_eq_iff.2 ⟨h.colon_notMem_lead, ?_⟩
  unfold front
  split
  · next hcontext => exact .inr ⟨by simp [hcontext], rfl⟩
  · exact .inl rfl

end IsWritable

/-! ## Texts -/

/-- A text is read as a remapping if it falls into its parts at the first equals sign and at the
last colon before that. -/
theorem parseText_eq_ok :
    parseText text = .ok r ↔
      ∃ head, text.toList = head ++ '=' :: r.target.toList ∧ '=' ∉ head ∧ r.lead ≠ "" ∧
        splitHead head = (r.context.toList, r.lead.toList) := by
  constructor
  · intro h
    unfold parseText at h
    cases hcut : cutFirst? '=' text.toList with
    | none => simp [hcut] at h
    | some parts =>
      obtain ⟨head, target⟩ := parts
      obtain ⟨htext, hequals⟩ := cutFirst?_eq_some_iff.1 hcut
      cases head with
      | nil => simp [hcut] at h
      | cons c head =>
        simp only [hcut] at h
        split at h
        · cases h
        · next hlead =>
          obtain rfl := Except.ok.inj h
          refine ⟨c :: head, by simpa using htext, hequals, fun hempty => hlead ?_, by simp⟩
          simpa using hempty
  · rintro ⟨head, htext, hequals, hlead, hsplit⟩
    have hcut : cutFirst? '=' text.toList = some (head, r.target.toList) :=
      cutFirst?_eq_some_iff.2 ⟨htext, hequals⟩
    unfold parseText
    cases head with
    | nil =>
      obtain ⟨-, hempty | ⟨-, hempty⟩⟩ := splitHead_eq_iff.1 hsplit
      · simp at hempty
      · exact absurd (String.toList_eq_nil_iff.1 hempty.symm) hlead
    | cons c head =>
      have hne : r.lead.toList.isEmpty = false := by simpa using hlead
      simp only [hcut, hsplit, hne, String.ofList_toList]
      rfl

/-- A text is read as a remapping just if the remapping is writable, and the text is the one that is
written, or the same behind a colon in place of a context. -/
theorem parseText_eq_ok_iff :
    parseText text = .ok r ↔
      r.IsWritable ∧ (text = r.toString ∨ r.context = "" ∧ text = ":" ++ r.toString) := by
  rw [parseText_eq_ok]
  constructor
  · rintro ⟨head, htext, hequals, hlead, hsplit⟩
    obtain ⟨hcolon, hhead⟩ := splitHead_eq_iff.1 hsplit
    have hwritable : r.IsWritable := by
      refine ⟨hlead, hcolon, fun h => hequals ?_, fun h => hequals ?_⟩
      · rcases hhead with rfl | ⟨-, rfl⟩ <;> simp [h]
      · rcases hhead with rfl | ⟨hcontext, -⟩
        · simp [h]
        · simp [hcontext] at h
    refine ⟨hwritable, ?_⟩
    simp only [← String.toList_inj, String.toList_append, toList_toString, htext]
    unfold front
    by_cases hcontext : r.context = ""
    · rcases hhead with rfl | ⟨-, rfl⟩
      · exact .inr ⟨by simp [hcontext], by simp [hcontext]⟩
      · exact .inl (by simp [hcontext])
    · rcases hhead with rfl | ⟨hempty, -⟩
      · exact .inl (by simp [hcontext])
      · exact absurd (String.toList_eq_nil_iff.1 hempty) hcontext
  · rintro ⟨hwritable, rfl | ⟨hcontext, rfl⟩⟩
    · exact ⟨r.front, toList_toString r, hwritable.equals_notMem_front, hwritable.lead_ne,
        hwritable.splitHead_front⟩
    · refine ⟨':' :: r.lead.toList, ?_, by simp [hwritable.equals_notMem_lead], hwritable.lead_ne,
        splitHead_eq_iff.2 ⟨hwritable.colon_notMem_lead, .inl (by simp [hcontext])⟩⟩
      rw [String.toList_append, toList_toString, front, if_pos hcontext]
      rfl

/-- A remapping that was read is writable, and its text is read as it. -/
theorem parseText_toString_of_parseText (h : parseText text = .ok r) :
    parseText r.toString = .ok r :=
  parseText_eq_ok_iff.2 ⟨(parseText_eq_ok_iff.1 h).1, .inl rfl⟩

/-- A remapping is the same again after it was written and read just if it is writable; and whatever
a setting is read as, writing that and reading it again yields the same. -/
theorem parse_toString (r : Remapping) :
    (parse (.text r.toString) = .ok r ↔ r.IsWritable) ∧
    ∀ setting, (do parse (.text (← parse setting).toString)) = parse setting := by
  refine ⟨⟨fun h => (parseText_eq_ok_iff.1 h).1, fun h => parseText_eq_ok_iff.2 ⟨h, .inl rfl⟩⟩,
    fun setting => ?_⟩
  cases hread : parse setting with
  | error e => rfl
  | ok r =>
    show parseText r.toString = .ok r
    cases setting with
    | text s => exact parseText_toString_of_parseText hread
    | _ => cases hread

/-- Only the last colon of a context ends it, and a target may hold both marks. -/
example : parseText "a:b:c=d:e=f" = .ok ⟨"a:b", "c", "d:e=f"⟩ := by rfl

end LanguageServer.Remapping
