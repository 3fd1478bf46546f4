import LanguageServer.Proofs.Document.Ordering
import LanguageServer.Text.Newline
import Mathlib.Order.Monotone.Basic

/-!
# Carriage returns in front of line feeds

A text that is read from a file loses its carriage returns, while a document keeps them.  If
each of them stands in front of a line feed, then the two texts have the same lines, and what
stands somewhere in one of them has the same position as in the other one.

## Main definitions

* `Text.pairsReturns` — each carriage return stands in front of a line feed.
* `Text.rawOffset` — where a character of the text without carriage returns stands in the text with
  them.

## Main statements

* `Text.rawOffset_append` — offsets behind some characters.
* `LineIndex.positionAt_rawOffset` — the positions are the same.
-/

namespace LanguageServer

namespace Text

/-- Whether each carriage return stands in front of a line feed. -/
def pairsReturns : List Char → Bool
  | [] => true
  | '\r' :: '\n' :: cs => pairsReturns cs
  | c :: cs => c != '\r' && pairsReturns cs

/-- Where a character of a text stands that has carriage returns: the two characters of a line end
count as one, and behind the text all goes on as before. -/
def rawOffset : List Char → Nat → Nat
  | _, 0 => 0
  | [], n + 1 => n + 1
  | '\r' :: '\n' :: cs, n + 1 => rawOffset cs n + 2
  | _ :: cs, n + 1 => rawOffset cs n + 1
termination_by structural _ n => n

@[simp] theorem rawOffset_zero (s : List Char) : rawOffset s 0 = 0 := rfl

@[simp] theorem rawOffset_nil (n : Nat) : rawOffset [] n = n := by
  cases n <;> rfl

theorem rawOffset_pair (cs : List Char) (n : Nat) :
    rawOffset ('\r' :: '\n' :: cs) (n + 1) = rawOffset cs n + 2 := rfl

theorem rawOffset_cons {c : Char} (hc : c ≠ '\r') (cs : List Char) (n : Nat) :
    rawOffset (c :: cs) (n + 1) = rawOffset cs n + 1 := by
  rw [rawOffset.eq_4 c cs n fun _ heq => absurd heq hc]

theorem normaliseNewlines_cons {c : Char} (hc : c ≠ '\r') (cs : List Char) :
    normaliseNewlines (c :: cs) = c :: normaliseNewlines cs := by
  rw [normaliseNewlines.eq_3 c cs fun _ heq => absurd heq hc, if_neg hc]

theorem pairsReturns_cons {c : Char} (hc : c ≠ '\r') (cs : List Char) :
    pairsReturns (c :: cs) = pairsReturns cs := by
  rw [pairsReturns.eq_3 c cs fun _ heq => absurd heq hc]
  simp [hc]

/-- A text with paired carriage returns begins with a line end, or with another character. -/
theorem pairsReturns_induction {motive : (s : List Char) → pairsReturns s = true → Prop}
    (nil : motive [] rfl)
    (pair : ∀ cs (h : pairsReturns cs = true), motive cs h → motive ('\r' :: '\n' :: cs) h)
    (cons : ∀ c cs (hc : c ≠ '\r') (h : pairsReturns cs = true), motive cs h →
      motive (c :: cs) ((pairsReturns_cons hc cs).trans h))
    (s : List Char) (h : pairsReturns s = true) : motive s h := by
  induction s using pairsReturns.induct with
  | case1 => exact nil
  | case2 cs ih => exact pair cs h (ih h)
  | case3 c cs hpair ih =>
    obtain ⟨hc, hcs⟩ : c ≠ '\r' ∧ pairsReturns cs = true := by
      rwa [pairsReturns.eq_3 c cs hpair, Bool.and_eq_true, bne_iff_ne] at h
    exact cons c cs hc hcs (ih hcs)

/-! ## Characters in front -/

section Append

variable {front : List Char} (hfront : '\r' ∉ front)
include hfront

theorem pairsReturns_append (rest : List Char) :
    pairsReturns (front ++ rest) = pairsReturns rest := by
  induction front with
  | nil => rfl
  | cons c cs ih =>
    rw [List.mem_cons, not_or] at hfront
    rw [List.cons_append, pairsReturns_cons (Ne.symm hfront.1), ih hfront.2]

/-- Offsets behind some characters are counted from there. -/
theorem rawOffset_append (rest : List Char) (n : Nat) :
    rawOffset (front ++ rest) (front.length + n) = front.length + rawOffset rest n := by
  induction front with
  | nil => simp
  | cons c cs ih =>
    rw [List.mem_cons, not_or] at hfront
    rw [List.cons_append, List.length_cons, Nat.add_right_comm, rawOffset_cons (Ne.symm hfront.1),
      ih hfront.2]
    omega

end Append

/-! ## All offsets -/

theorem rawOffset_strictMono (s : List Char) : StrictMono (rawOffset s) := by
  refine strictMono_nat_of_lt_succ fun n => ?_
  induction n generalizing s with
  | zero =>
    rw [rawOffset_zero]
    unfold rawOffset
    split <;> omega
  | succ n ih =>
    match s with
    | [] => exact Nat.lt_succ_self _
    | c :: cs =>
      by_cases h : ∃ rest, c = '\r' ∧ cs = '\n' :: rest
      · obtain ⟨rest, rfl, rfl⟩ := h
        exact Nat.add_lt_add_right (ih rest) 2
      · have hplain : ∀ rest, c = '\r' → cs = '\n' :: rest → False := fun rest hc hcs =>
          h ⟨rest, hc, hcs⟩
        rw [rawOffset.eq_4 c cs n hplain, rawOffset.eq_4 c cs (n + 1) hplain]
        exact Nat.add_lt_add_right (ih cs) 1

/-- Behind one text the other one ends, too. -/
theorem rawOffset_length {s : List Char} (h : pairsReturns s = true) (n : Nat) :
    rawOffset s ((normaliseNewlines s).length + n) = s.length + n := by
  induction s, h using pairsReturns_induction with
  | nil => simp [normaliseNewlines]
  | pair cs h ih =>
    rw [normaliseNewlines, List.length_cons, Nat.add_right_comm, rawOffset_pair, ih]
    simp only [List.length_cons]
    omega
  | cons c cs hc h ih =>
    rw [normaliseNewlines_cons hc, List.length_cons, Nat.add_right_comm, rawOffset_cons hc, ih]
    simp only [List.length_cons]
    omega

/-- A text in which nothing is moved has no carriage returns. -/
theorem normaliseNewlines_of_rawOffset {s : List Char} (h : pairsReturns s = true)
    (hstill : rawOffset s = id) : normaliseNewlines s = s := by
  induction s, h using pairsReturns_induction with
  | nil => rfl
  | pair cs h ih =>
    have hmoved := congrFun hstill 1
    rw [rawOffset_pair, rawOffset_zero] at hmoved
    cases hmoved
  | cons c cs hc h ih =>
    have hrest : rawOffset cs = id := funext fun n => by
      have hnext := congrFun hstill (n + 1)
      rw [rawOffset_cons hc] at hnext
      exact Nat.succ.inj hnext
    rw [normaliseNewlines_cons hc, ih hrest]

end Text

open Text

/-! ## Positions -/

namespace LineIndex

variable {index : LineIndex}

/-- The position of an offset is found by going over all characters before it. -/
theorem positionAt_eq_foldl {n : Nat} (hn : n ≤ index.text.length) :
    index.positionAt n = (index.text.take n).foldl Position.behind ⟨0, 0⟩ := by
  induction n with
  | zero =>
    have hfirst : index.IsOnLine 0 0 0 := isOnLine_start (by rw [index.starts_eq]; rfl)
    rw [positionAt_eq hfirst (Nat.zero_le _)]
    simp
  | succ n ih =>
    have hc := List.getElem?_eq_getElem (show n < index.text.length from hn)
    rw [positionAt_succ hc, ih (Nat.le_of_succ_le hn), List.take_add_one, hc, List.foldl_append]
    rfl

/-- A line end leads to the next line, whether or not a carriage return stands in it. -/
theorem foldl_take_rawOffset {s : List Char} (h : pairsReturns s = true) {n : Nat}
    (hn : n ≤ (normaliseNewlines s).length) (p : Position) :
    (s.take (rawOffset s n)).foldl Position.behind p =
      ((normaliseNewlines s).take n).foldl Position.behind p := by
  -- For every position: the rest is gone over from where the first character leads.
  induction s, h using pairsReturns_induction generalizing n p with
  | nil => simp [normaliseNewlines]
  | pair cs h ih =>
    cases n with
    | zero => rfl
    | succ n =>
      rw [normaliseNewlines, List.length_cons, Nat.succ_le_succ_iff] at hn
      rw [rawOffset_pair, normaliseNewlines, List.take_succ_cons, List.take_succ_cons,
        List.take_succ_cons, List.foldl_cons, List.foldl_cons, List.foldl_cons, ih hn]
      rfl
  | cons c cs hc h ih =>
    cases n with
    | zero => rfl
    | succ n =>
      rw [normaliseNewlines_cons hc, List.length_cons, Nat.succ_le_succ_iff] at hn
      rw [rawOffset_cons hc, normaliseNewlines_cons hc, List.take_succ_cons, List.take_succ_cons,
        List.foldl_cons, List.foldl_cons, ih hn]

/-- What stands in a text without carriage returns has the same position in the text with them. -/
theorem positionAt_rawOffset {s : List Char} (h : pairsReturns s = true) (n : Nat) :
    (ofText s).positionAt (rawOffset s n) = (ofText (normaliseNewlines s)).positionAt n := by
  rcases Nat.le_total n (normaliseNewlines s).length with hn | hn
  · have hlength : rawOffset s n ≤ s.length := by
      rw [show s.length = rawOffset s ((normaliseNewlines s).length + 0) from
        (rawOffset_length h 0).symm]
      exact (rawOffset_strictMono s).monotone hn
    calc (ofText s).positionAt (rawOffset s n)
        = (s.take (rawOffset s n)).foldl Position.behind ⟨0, 0⟩ := positionAt_eq_foldl hlength
      _ = ((normaliseNewlines s).take n).foldl Position.behind ⟨0, 0⟩ := foldl_take_rawOffset h hn _
      _ = (ofText (normaliseNewlines s)).positionAt n :=
        (@positionAt_eq_foldl (ofText (normaliseNewlines s)) n hn).symm
  · -- Behind the end of a text there is only the position of its end.
    obtain ⟨m, rfl⟩ := Nat.exists_eq_add_of_le hn
    have hend (t : List Char) (m : Nat) :
        (ofText t).positionAt (t.length + m : Nat) = t.foldl Position.behind ⟨0, 0⟩ := by
      have hclamp : (ofText t).clamp (t.length + m : Nat) = t.length :=
        Nat.min_eq_right (Nat.le_add_right _ _)
      rw [← positionAt_clamp, hclamp]
      exact (positionAt_eq_foldl (Nat.le_refl _)).trans
        (congrArg (List.foldl _ _) (List.take_length (l := t)))
    have hfold := foldl_take_rawOffset h (Nat.le_refl _) ⟨0, 0⟩
    rw [show rawOffset s (normaliseNewlines s).length = s.length from rawOffset_length h 0,
      List.take_length, List.take_length] at hfold
    rw [rawOffset_length h, hend, hend, hfold]

end LineIndex

end LanguageServer
