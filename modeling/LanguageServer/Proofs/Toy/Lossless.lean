import LanguageServer.Proofs.Toy.Tokens
import Mathlib.Data.List.Chain
import Mathlib.Data.List.TakeWhile

/-!
# Nothing of a text is lost

Reading takes a text apart into pieces, and some piece fits at each place.  The tokens are kept.
What is not kept is white space and comments, so together with these the tokens make up the text.

A comment goes on to the end of its line.  Whether it is complete is therefore told by what stands
behind it, which may be more filler or the next token.

## Main definitions

* `stretch` — the characters of a text between two places.
* `IsFiller` — white space and complete comments, and nothing else.

## Main statements

* `isFiller_cutPiece` — a piece that is no token is filler.
* `isChain_tokensFrom` — there is filler between the tokens of what follows a part of a text.
* `tokens_lossless` — the tokens of a text stand in order, spell what is in their places, and leave
  only filler.
-/

namespace LanguageServer.Toy

open LanguageServer.Text

/-- The characters of a text from `start` up to `stop`. -/
def stretch (text : List Char) (start stop : Nat) : List Char :=
  (text.drop start).take (stop - start)

/-- A part of a text, with what stands behind it, consists of runs of white space and of comments;
each comment ends before a newline or at the end of the text. -/
inductive IsFiller (behind : List Char) : List Char → Prop
  | nil : IsFiller behind []
  | space {run rest : List Char} (hne : run ≠ []) (hblank : ∀ c ∈ run, isBlank c = true)
    (hrest : IsFiller behind rest) : IsFiller behind (run ++ rest)
  | comment {body rest : List Char} (hline : '\n' ∉ body)
    (hend : rest ++ behind = [] ∨ (rest ++ behind).head? = some '\n')
    (hrest : IsFiller behind rest) : IsFiller behind ('/' :: '/' :: body ++ rest)

/-! ## Filler -/

/-- Filler goes on with the filler behind it. -/
theorem IsFiller.append {l l' behind : List Char} (h : IsFiller (l' ++ behind) l)
    (h' : IsFiller behind l') : IsFiller behind (l ++ l') := by
  induction h with
  | nil => exact h'
  | space hne hblank _ ih =>
    rw [List.append_assoc]
    exact .space hne hblank ih
  | comment hline hend _ ih =>
    rw [← List.append_assoc] at hend
    rw [List.append_assoc]
    exact .comment hline hend ih

theorem isFiller_space {c : Char} (cs : List Char) (h : isBlank c = true) :
    IsFiller (cs.dropWhile isBlank) (c :: cs.takeWhile isBlank) := by
  have hrun : ∀ d ∈ c :: cs.takeWhile isBlank, isBlank d = true := by
    rintro d (_ | ⟨_, hd⟩)
    · exact h
    · exact List.mem_takeWhile_imp hd
  have hrest : IsFiller (cs.dropWhile isBlank) [] := .nil
  have hfiller := IsFiller.space (List.cons_ne_nil _ _) hrun hrest
  rwa [List.append_nil] at hfiller

/-- A comment takes all of its line. -/
theorem isFiller_comment (cs : List Char) :
    IsFiller (cs.dropWhile (· != '\n')) ('/' :: '/' :: cs.takeWhile (· != '\n')) := by
  have hline : '\n' ∉ cs.takeWhile (· != '\n') := fun h => by
    simpa using List.mem_takeWhile_imp h
  have hend : [] ++ cs.dropWhile (· != '\n') = [] ∨
      ([] ++ cs.dropWhile (· != '\n')).head? = some '\n' := by
    rw [List.nil_append]
    cases hdrop : cs.dropWhile (· != '\n') with
    | nil => exact .inl rfl
    | cons d ds =>
      have hd := List.head_dropWhile_not (· != '\n') (hdrop ▸ List.cons_ne_nil d ds)
      simp only [hdrop, List.head_cons, bne_eq_false_iff_eq] at hd
      exact .inr (congrArg some hd)
  have hfiller := IsFiller.comment hline hend .nil
  rwa [List.append_nil] at hfiller

/-- What begins neither with white space nor like a comment begins with a token. -/
theorem exists_token_of_cutPiece {c : Char} {cs : List Char} (hblank : ¬isBlank c = true)
    (hcomment : ¬(c = '/' ∧ cs.head? = some '/')) : ∃ kind, (cutPiece c cs).1 = .token kind := by
  rw [cutPiece, if_neg hblank, if_neg hcomment]
  split
  · split <;> exact ⟨_, rfl⟩
  split
  · exact ⟨_, rfl⟩
  split
  · exact ⟨_, rfl⟩
  split <;> exact ⟨_, rfl⟩

/-- A piece of a text that is no token is filler. -/
theorem isFiller_cutPiece {c : Char} {cs : List Char}
    (h : ∀ kind, (cutPiece c cs).1 ≠ .token kind) :
    IsFiller (cutPiece c cs).2.2 (cutPiece c cs).2.1 := by
  by_cases hblank : isBlank c = true
  · rw [cutPiece, if_pos hblank]
    exact isFiller_space cs hblank
  by_cases hcomment : c = '/' ∧ cs.head? = some '/'
  · rw [cutPiece, if_neg hblank, if_pos hcomment]
    obtain ⟨rfl, hhead⟩ := hcomment
    obtain ⟨cs, rfl⟩ := List.head?_eq_some_iff.1 hhead
    exact isFiller_comment cs
  · obtain ⟨kind, hkind⟩ := exists_token_of_cutPiece hblank hcomment
    exact absurd hkind (h kind)

/-! ## Between the tokens -/

/-- Between two places of a text there is only filler. -/
def OnlyFiller (text : List Char) (start stop : Nat) : Prop :=
  IsFiller (text.drop stop) (stretch text start stop)

theorem IsFiller.onlyFiller {text front filler cs : List Char} {start stop : Nat}
    (h : IsFiller cs filler) (htext : front ++ filler ++ cs = text) (hstart : start = front.length)
    (hstop : (front ++ filler).length = stop) : OnlyFiller text start stop := by
  subst htext hstart hstop
  rw [OnlyFiller, stretch, List.drop_left, List.append_assoc, List.drop_left, List.length_append,
    Nat.add_sub_cancel_left, List.take_left]
  exact h

/-- There is only filler between the tokens of what follows a part of a text, if that part ends with
filler. -/
theorem isChain_tokensFrom (text : List Char) (offset : Nat) (cs : List Char) :
    ∀ (front filler : List Char) (before : Span), IsFiller cs filler →
      front ++ filler ++ cs = text → before.stop = front.length →
      (front ++ filler).length = offset →
      (before :: (tokensFrom offset cs ++ [endToken text]).map (·.span)).IsChain
        fun a b => OnlyFiller text a.stop b.start := by
  induction offset, cs using tokensFrom.induct with
  | case1 offset =>
    intro front filler before hfiller htext hbefore hoffset
    have hend : text.length = offset := by rw [← htext, List.append_nil, hoffset]
    rw [tokensFrom]
    exact List.isChain_pair.2 (hfiller.onlyFiller htext hbefore (hoffset.trans hend.symm))
  | case2 offset c cs taken next kind hkind ih =>
    intro front filler before hfiller htext hbefore hoffset
    have hcut : taken ++ (cutPiece c cs).2.2 = c :: cs := cutPiece_append c cs
    have hnext : (front ++ filler ++ taken).length = next := by rw [List.length_append, hoffset]
    rw [tokensFrom, hkind]
    refine List.isChain_cons_cons.2 ⟨hfiller.onlyFiller htext hbefore hoffset, ?_⟩
    -- there is no filler yet that goes with the token behind this one
    refine ih (front ++ filler ++ taken) [] _ .nil ?_ hnext.symm ?_
    · rw [List.append_nil, List.append_assoc, hcut, htext]
    · rw [List.append_nil, hnext]
  | case3 offset c cs taken next hkind ih =>
    intro front filler before hfiller htext hbefore hoffset
    have hcut : taken ++ (cutPiece c cs).2.2 = c :: cs := cutPiece_append c cs
    have hgrown : IsFiller (cutPiece c cs).2.2 (filler ++ taken) :=
      .append (hcut.symm ▸ hfiller) (isFiller_cutPiece hkind)
    rw [tokensFrom]
    split
    · next kind hk => exact absurd hk (hkind kind)
    · refine ih front (filler ++ taken) before hgrown ?_ hbefore ?_
      · rw [← List.append_assoc, List.append_assoc, hcut, htext]
      · rw [← List.append_assoc, List.length_append, hoffset]

/-! ## The whole text -/

/-- The tokens of a text and the empty token at its end stand in strictly increasing order and do
not overlap.  All but the last have a character, and each spells what stands in its place.  Before
the first, between two and behind the last of the tokens there are only runs of white space and
comments that end before a newline or at the end of the text. -/
theorem tokens_lossless (text : List Char) :
    (tokens text ++ [endToken text]).Pairwise
      (fun a b => a.span.start < b.span.start ∧ a.span.stop ≤ b.span.start) ∧
    (∀ t ∈ tokens text, t.span.start < t.span.stop) ∧
    (endToken text).span = ⟨text.length, text.length⟩ ∧
    (∀ t ∈ tokens text ++ [endToken text], t.span.stop ≤ text.length ∧
      t.text.toList = stretch text t.span.start t.span.stop) ∧
    (⟨0, 0⟩ :: (tokens text ++ [endToken text]).map (·.span)).IsChain
      fun a b => IsFiller (text.drop b.start) (stretch text a.stop b.start) := by
  have hpieces : ∀ t ∈ tokens text, t.IsPieceOf text := fun t => isPieceOf_of_mem_tokens
  refine ⟨List.pairwise_append.2 ⟨?_, List.pairwise_singleton _ _, ?_⟩,
    fun t ht => (hpieces t ht).nonempty, rfl, ?_,
    isChain_tokensFrom text 0 text [] [] ⟨0, 0⟩ .nil rfl rfl rfl⟩
  · exact (pairwise_tokens text).imp_of_mem fun ha _ h =>
      ⟨Nat.lt_of_lt_of_le (hpieces _ ha).nonempty h, h⟩
  · intro t ht b hb
    obtain rfl := List.mem_singleton.1 hb
    exact ⟨Nat.lt_of_lt_of_le (hpieces t ht).nonempty (hpieces t ht).stop, (hpieces t ht).stop⟩
  · intro t ht
    rcases List.mem_append.1 ht with ht | ht
    · exact ⟨(hpieces t ht).stop, (hpieces t ht).spells.symm⟩
    · obtain rfl := List.mem_singleton.1 ht
      exact ⟨Nat.le_refl _, by simp [endToken, stretch]⟩

end LanguageServer.Toy
