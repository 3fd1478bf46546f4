/-!
# Line ends of files

A text read from a file has one kind of line end: a carriage return followed by a
line feed, and a carriage return alone, both become a line feed.

## Main definitions

* `normaliseNewlines s` — `s` with every line end written as a line feed.
-/

namespace LanguageServer.Text

/-- Writes every line end as a line feed. -/
def normaliseNewlines : List Char → List Char
  | [] => []
  | '\r' :: '\n' :: cs => '\n' :: normaliseNewlines cs
  | c :: cs => (if c = '\r' then '\n' else c) :: normaliseNewlines cs

/-- No carriage return is left. -/
theorem cr_notMem_normaliseNewlines (s : List Char) : '\r' ∉ normaliseNewlines s := by
  fun_induction normaliseNewlines s with
  | case1 => simp
  | case2 cs ih => simp [ih]
  | case3 c cs h ih =>
    simp only [List.mem_cons, not_or]
    refine ⟨?_, ih⟩
    split
    · decide
    · rename_i hc; exact fun h => hc h.symm

/-- A text without carriage returns is left alone. -/
theorem normaliseNewlines_of_notMem {s : List Char} (h : '\r' ∉ s) : normaliseNewlines s = s := by
  fun_induction normaliseNewlines s with
  | case1 => rfl
  | case2 cs ih => simp at h
  | case3 c cs hc ih =>
    simp only [List.mem_cons, not_or] at h
    rw [ih h.2, if_neg (fun e => h.1 e.symm)]

/-- A second pass changes nothing. -/
theorem normaliseNewlines_idem (s : List Char) :
    normaliseNewlines (normaliseNewlines s) = normaliseNewlines s :=
  normaliseNewlines_of_notMem (cr_notMem_normaliseNewlines s)

end LanguageServer.Text
