import LanguageServer.Toy.Token
import Mathlib.Data.List.Pairwise
import Mathlib.Order.Basic

/-!
# Where tokens stand

The tokens of a text are pieces of it, one behind the other.

## Main definitions

* `Token.IsPieceOf` — a token spells what stands in its place.

## Main statements

* `isPieceOf_of_mem_tokens`, `pairwise_tokens` — the tokens of a text are pieces of it, in order.
-/

namespace LanguageServer.Toy

open LanguageServer.Text

/-- A token spells the characters in its place, and there are some. -/
structure Token.IsPieceOf (text : List Char) (t : Token) : Prop where
  nonempty : t.span.start < t.span.stop
  stop : t.span.stop ≤ text.length
  spells : (text.drop t.span.start).take (t.span.stop - t.span.start) = t.text.toList
  kind : t.kind ≠ .finish

/-- No piece of a text is taken for its end. -/
theorem cutPiece_ne_finish (c : Char) (cs : List Char) : (cutPiece c cs).1 ≠ .token .finish := by
  unfold cutPiece
  split
  · simp [cutWhile]
  split
  · simp [cutWhile]
  split
  · split <;> simp
  split
  · simp [cutWhile]
  split
  · simp [cutWhile]
  split <;> simp

/-- The tokens of what follows a part of a text are pieces of the text, behind that part. -/
theorem isPieceOf_of_mem_tokensFrom (front cs : List Char) :
    ∀ t ∈ tokensFrom front.length cs, t.IsPieceOf (front ++ cs) ∧ front.length ≤ t.span.start := by
  generalize hlength : front.length = offset
  induction offset, cs using tokensFrom.induct generalizing front with
  | case1 offset => simp [tokensFrom]
  | case2 offset c cs taken next kind hkind ih =>
    have hcut : taken ++ (cutPiece c cs).2.2 = c :: cs := cutPiece_append c cs
    have hnext : (front ++ taken).length = next := by simp [next, hlength]
    have hpos : 0 < taken.length := List.length_pos_iff.2 (cutPiece_ne_nil c cs)
    subst hlength
    intro t ht
    rw [tokensFrom, hkind] at ht
    rcases List.mem_cons.1 ht with rfl | ht
    · refine ⟨⟨?_, ?_, ?_, fun hfinish => ?_⟩, Nat.le_refl _⟩
      · exact Nat.lt_add_of_pos_right hpos
      · show next ≤ (front ++ c :: cs).length
        rw [← hcut, ← List.append_assoc, List.length_append, hnext]
        exact Nat.le_add_right _ _
      · simp only [taken, ← hcut, List.drop_left, Nat.add_sub_cancel_left, List.take_left,
          String.toList_ofList]
      · exact cutPiece_ne_finish c cs (hkind.trans (congrArg Piece.token hfinish))
    · obtain ⟨hpiece, hbehind⟩ := ih (front ++ taken) hnext t ht
      rw [List.append_assoc, hcut] at hpiece
      exact ⟨hpiece, Nat.le_trans (Nat.le_add_right _ _) hbehind⟩
  | case3 offset c cs taken next hkind ih =>
    have hcut : taken ++ (cutPiece c cs).2.2 = c :: cs := cutPiece_append c cs
    have hnext : (front ++ taken).length = next := by simp [next, hlength]
    subst hlength
    intro t ht
    rw [tokensFrom] at ht
    obtain ⟨hpiece, hbehind⟩ := ih (front ++ taken) hnext t (by
      split at ht
      · next kind hk => exact absurd hk (hkind kind)
      · exact ht)
    rw [List.append_assoc, hcut] at hpiece
    exact ⟨hpiece, Nat.le_trans (Nat.le_add_right _ _) hbehind⟩

/-- Each token stands behind those before it. -/
theorem pairwise_tokensFrom (offset : Nat) (cs : List Char) :
    (tokensFrom offset cs).Pairwise fun a b => a.span.stop ≤ b.span.start := by
  induction offset, cs using tokensFrom.induct with
  | case1 offset => simp [tokensFrom]
  | case2 offset c cs taken next kind hkind ih =>
    rw [tokensFrom, hkind]
    refine List.pairwise_cons.2 ⟨fun t ht => ?_, ih⟩
    have hbehind := (isPieceOf_of_mem_tokensFrom (List.replicate next c) _ t (by
      rw [List.length_replicate]
      exact ht)).2
    rwa [List.length_replicate] at hbehind
  | case3 offset c cs taken next hkind ih =>
    rw [tokensFrom]
    split
    · next kind hk => exact absurd hk (hkind kind)
    · exact ih

variable {text : List Char} {t : Token}

/-- A token of a text spells what stands in its place. -/
theorem isPieceOf_of_mem_tokens (h : t ∈ tokens text) : t.IsPieceOf text :=
  (isPieceOf_of_mem_tokensFrom [] text t h).1

theorem pairwise_tokens (text : List Char) :
    (tokens text).Pairwise fun a b => a.span.stop ≤ b.span.start :=
  pairwise_tokensFrom 0 text

/-! ## Names -/

/-- A token is the first piece of what is left of the text at its place. -/
theorem exists_cutPiece_of_mem_tokensFrom (offset : Nat) (cs : List Char) :
    ∀ t ∈ tokensFrom offset cs, ∃ front c rest, cs = front ++ c :: rest ∧
      (cutPiece c rest).1 = .token t.kind ∧ t.text.toList = (cutPiece c rest).2.1 ∧
      t.span.start = offset + front.length := by
  induction offset, cs using tokensFrom.induct with
  | case1 offset => simp [tokensFrom]
  | case2 offset c cs taken next kind hkind ih =>
    intro t ht
    rw [tokensFrom, hkind] at ht
    rcases List.mem_cons.1 ht with rfl | ht
    · exact ⟨[], c, cs, rfl, hkind, String.toList_ofList, rfl⟩
    · obtain ⟨front, d, rest, hcs, hcut, htext, hstart⟩ := ih t ht
      refine ⟨taken ++ front, d, rest, ?_, hcut, htext, ?_⟩
      · rw [List.append_assoc, ← hcs, cutPiece_append]
      · rw [hstart, List.length_append, Nat.add_assoc]
  | case3 offset c cs taken next hkind ih =>
    intro t ht
    rw [tokensFrom] at ht
    obtain ⟨front, d, rest, hcs, hcut, htext, hstart⟩ := ih t (by
      split at ht
      · next kind hk => exact absurd hk (hkind kind)
      · exact ht)
    refine ⟨taken ++ front, d, rest, ?_, hcut, htext, ?_⟩
    · rw [List.append_assoc, ← hcs, cutPiece_append]
    · rw [hstart, List.length_append, Nat.add_assoc]

/-- A piece that is a name takes all word characters. -/
theorem cutPiece_name {c : Char} {cs : List Char} (h : (cutPiece c cs).1 = .token .name) :
    isNameStart c = true ∧ (cutPiece c cs).2 = (c :: cs.takeWhile isWord, cs.dropWhile isWord) := by
  unfold cutPiece at h ⊢
  split
  · simp_all [cutWhile]
  split
  · simp_all [cutWhile]
  split
  · split <;> simp_all
  split
  · simp_all [cutWhile]
  split
  · next hname => exact ⟨hname, rfl⟩
  split <;> simp_all

end LanguageServer.Toy
