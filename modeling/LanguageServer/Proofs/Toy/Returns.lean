import LanguageServer.Proofs.Document.Returns
import LanguageServer.Proofs.Toy.Shifting

/-!
# Reading texts with carriage returns

A carriage return in front of a line feed stands in white space or at the end of a comment, and
never in a token: a string would have to be closed behind it on the same line.  So a text holds
the same tokens with these carriage returns as without them.

## Main statements

* `cutPiece_normaliseNewlines` — the first token is the same.
* `respells_normaliseNewlines` — all tokens are.
-/

namespace LanguageServer.Toy

open Text

/-! ## White space and comments -/

/-- A blank character is passed over. -/
theorem tokensFrom_blank {c : Char} (hc : isBlank c = true) (offset : Nat) (cs : List Char) :
    tokensFrom offset (c :: cs) = tokensFrom (offset + 1) cs := by
  have hcut (d : Char) (ds : List Char) (hd : isBlank d = true) :
      cutPiece d ds = cutWhile .space isBlank d ds := by
    rw [cutPiece, if_pos hd]
  rw [tokensFrom, hcut c cs hc]
  simp only [cutWhile, List.length_cons]
  cases cs with
  | nil => rfl
  | cons d ds =>
    by_cases hd : isBlank d = true
    · rw [tokensFrom.eq_def (offset + 1), List.takeWhile_cons_of_pos hd, List.dropWhile_cons_of_pos hd]
      simp only [hcut d ds hd, cutWhile, List.length_cons]
      congr 1
      omega
    · rw [List.takeWhile_cons_of_neg hd, List.dropWhile_cons_of_neg hd]
      rfl

/-- What is read from the end of a line on. -/
def tokensBehindLine (offset : Nat) (cs : List Char) : List Token :=
  tokensFrom (offset + (cs.takeWhile (· != '\n')).length) (cs.dropWhile (· != '\n'))

theorem tokensBehindLine_cons {c : Char} (hc : c ≠ '\n') (offset : Nat) (cs : List Char) :
    tokensBehindLine offset (c :: cs) = tokensBehindLine (offset + 1) cs := by
  unfold tokensBehindLine
  rw [List.takeWhile_cons_of_pos (by simpa using hc), List.dropWhile_cons_of_pos (by simpa using hc),
    List.length_cons]
  congr 1
  omega

theorem tokensBehindLine_feed (offset : Nat) (cs : List Char) :
    tokensBehindLine offset ('\n' :: cs) = tokensFrom (offset + 1) cs := by
  unfold tokensBehindLine
  rw [List.takeWhile_cons_of_neg (by simp), List.dropWhile_cons_of_neg (by simp)]
  exact tokensFrom_blank (by decide) offset cs

/-- A comment is passed over. -/
theorem tokensFrom_comment {cs : List Char} (h : cs.head? = some '/') (offset : Nat) :
    tokensFrom offset ('/' :: cs) = tokensBehindLine (offset + 1) cs := by
  have hcut : cutPiece '/' cs = cutWhile .comment (· != '\n') '/' cs := by
    rw [cutPiece, if_neg (by decide), if_pos ⟨rfl, h⟩]
  rw [tokensFrom, hcut]
  simp only [cutWhile, List.length_cons, tokensBehindLine]
  congr 1
  omega

/-! ## Tokens -/

/-- Only a slash stands for a slash. -/
theorem head?_normaliseNewlines (cs : List Char) :
    (normaliseNewlines cs).head? = some '/' ↔ cs.head? = some '/' := by
  induction cs using normaliseNewlines.induct with
  | case1 => rfl
  | case2 cs _ => simp [normaliseNewlines]
  | case3 c cs hpair _ =>
    rw [normaliseNewlines.eq_3 c cs hpair]
    by_cases hc : c = '\r' <;> simp [hc]

/-- Characters that neither a carriage return nor a line feed belongs to stay as they are. -/
theorem span_normaliseNewlines {p : Char → Bool} (hreturn : p '\r' = false) (hfeed : p '\n' = false)
    {cs : List Char} (h : pairsReturns cs = true) :
    '\r' ∉ cs.takeWhile p ∧ (normaliseNewlines cs).takeWhile p = cs.takeWhile p ∧
      (normaliseNewlines cs).dropWhile p = normaliseNewlines (cs.dropWhile p) := by
  induction cs, h using pairsReturns_induction with
  | nil => simp [normaliseNewlines]
  | pair cs h ih => simp [normaliseNewlines, hreturn, hfeed]
  | cons c cs hc h ih =>
    rw [normaliseNewlines_cons hc]
    by_cases hp : p c = true
    · rw [List.takeWhile_cons_of_pos hp, List.takeWhile_cons_of_pos hp, List.dropWhile_cons_of_pos hp,
        List.dropWhile_cons_of_pos hp, ih.2.1, ih.2.2, List.mem_cons, not_or]
      exact ⟨⟨Ne.symm hc, ih.1⟩, rfl, rfl⟩
    · simp only [List.takeWhile_cons_of_neg hp, List.dropWhile_cons_of_neg hp,
        normaliseNewlines_cons hc, List.not_mem_nil, not_false_eq_true, and_self]

/-- A string holds no carriage return. -/
theorem closeString?_normaliseNewlines {cs : List Char} (h : pairsReturns cs = true) :
    closeString? (normaliseNewlines cs) =
        (closeString? cs).map (fun parts => (parts.1, normaliseNewlines parts.2)) ∧
      ∀ body rest, closeString? cs = some (body, rest) → '\r' ∉ body := by
  induction cs, h using pairsReturns_induction with
  | nil => simp [normaliseNewlines, closeString?]
  | pair cs h ih => simp [normaliseNewlines, closeString?]
  | cons c cs hc h ih =>
    obtain ⟨hclose, hbody⟩ := ih
    rw [normaliseNewlines_cons hc, closeString?, closeString?, hclose]
    by_cases hquote : c = '"'
    · subst hquote
      simp
    · by_cases hfeed : c = '\n'
      · simp [hfeed]
      · rw [if_neg hquote, if_neg hfeed, if_neg hquote, if_neg hfeed, Option.map_map, Option.map_map]
        refine ⟨rfl, fun body rest heq => ?_⟩
        obtain ⟨⟨body, rest⟩, hparts, heq⟩ := Option.map_eq_some_iff.1 heq
        obtain ⟨rfl, rfl⟩ := Prod.mk.inj heq
        rw [List.mem_cons, not_or]
        exact ⟨Ne.symm hc, hbody _ _ hparts⟩

/-- The first token of a text is the same without carriage returns. -/
theorem cutPiece_normaliseNewlines {c : Char} {cs : List Char} (h : pairsReturns cs = true)
    (hblank : isBlank c = false) (hcomment : ¬ (c = '/' ∧ cs.head? = some '/')) :
    ∃ kind front rest, cs = front ++ rest ∧ '\r' ∉ front ∧
      cutPiece c cs = (.token kind, c :: front, rest) ∧
      cutPiece c (normaliseNewlines cs) = (.token kind, c :: front, normaliseNewlines rest) := by
  have hcomment' : ¬ (c = '/' ∧ (normaliseNewlines cs).head? = some '/') := by
    rwa [head?_normaliseNewlines]
  have hnotBlank : ¬ isBlank c = true := by simp [hblank]
  have hspan (kind : TokenKind) (p : Char → Bool) (hreturn : p '\r' = false) (hfeed : p '\n' = false) :
      ∃ kind' front rest, cs = front ++ rest ∧ '\r' ∉ front ∧
        cutWhile (.token kind) p c cs = (.token kind', c :: front, rest) ∧
        cutWhile (.token kind) p c (normaliseNewlines cs) =
          (.token kind', c :: front, normaliseNewlines rest) := by
    obtain ⟨hfront, htake, hdrop⟩ := span_normaliseNewlines hreturn hfeed h
    refine ⟨kind, _, _, (List.takeWhile_append_dropWhile (p := p)).symm, hfront, rfl, ?_⟩
    rw [cutWhile, htake, hdrop]
  have hsingle (kind : TokenKind) :
      ∃ kind' front rest, cs = front ++ rest ∧ '\r' ∉ front ∧
        (Piece.token kind, [c], cs) = (.token kind', c :: front, rest) ∧
        (Piece.token kind, [c], normaliseNewlines cs) =
          (.token kind', c :: front, normaliseNewlines rest) :=
    ⟨kind, [], cs, rfl, List.not_mem_nil, rfl, rfl⟩
  unfold cutPiece
  rw [if_neg hnotBlank, if_neg hnotBlank, if_neg hcomment, if_neg hcomment']
  by_cases hquote : c = '"'
  · obtain ⟨hclose, hbody⟩ := closeString?_normaliseNewlines h
    rw [if_pos hquote, if_pos hquote, hclose]
    cases hparts : closeString? cs with
    | none => exact hsingle .stray
    | some parts =>
      obtain ⟨body, rest⟩ := parts
      exact ⟨.string, body, rest, (closeString?_append hparts).symm, hbody body rest hparts, rfl, rfl⟩
  rw [if_neg hquote, if_neg hquote]
  by_cases hdigit : isDigit c = true
  · rw [if_pos hdigit, if_pos hdigit]
    exact hspan .number isDigit (by decide) (by decide)
  rw [if_neg hdigit, if_neg hdigit]
  by_cases hname : isNameStart c = true
  · rw [if_pos hname, if_pos hname]
    exact hspan .name isWord (by decide) (by decide)
  rw [if_neg hname, if_neg hname]
  by_cases hmark : isPunctuation c = true
  · rw [if_pos hmark, if_pos hmark]
    exact hsingle .punctuation
  · rw [if_neg hmark, if_neg hmark]
    exact hsingle .stray

/-! ## All tokens -/

/-- Offsets in a text without carriage returns lead to those in the text with them, if both texts
begin at certain offsets. -/
def Leads (f : Nat → Nat) (offset offset' : Nat) (cs : List Char) : Prop :=
  ∀ n, f (offset + n) = offset' + rawOffset cs n

variable {f : Nat → Nat} {offset offset' : Nat} {c : Char} {cs : List Char}

theorem Leads.pair (h : Leads f offset offset' ('\r' :: '\n' :: cs)) :
    Leads f (offset + 1) (offset' + 2) cs := fun n => by
  rw [Nat.add_right_comm, Nat.add_assoc offset, h, rawOffset_pair]
  omega

/-- Offsets behind some characters without carriage returns. -/
theorem Leads.append {front : List Char} (hfront : '\r' ∉ front)
    (h : Leads f offset offset' (front ++ cs)) :
    Leads f (offset + front.length) (offset' + front.length) cs := fun n => by
  rw [Nat.add_assoc, h, rawOffset_append hfront]
  omega

theorem Leads.cons (hc : c ≠ '\r') (h : Leads f offset offset' (c :: cs)) :
    Leads f (offset + 1) (offset' + 1) cs :=
  have hfront : '\r' ∉ [c] := by simpa using Ne.symm hc
  Leads.append hfront h

/-- Behind a line the same tokens are read if they are in all texts that are shorter. -/
theorem tokensBehindLine_normaliseNewlines (h : pairsReturns cs = true)
    (hread : ∀ rest : List Char, rest.length < cs.length → pairsReturns rest = true →
      ∀ offset offset', Leads f offset offset' rest →
        tokensFrom offset' rest = (tokensFrom offset (normaliseNewlines rest)).map (·.shift f))
    (hleads : Leads f offset offset' cs) :
    tokensBehindLine offset' cs =
      (tokensBehindLine offset (normaliseNewlines cs)).map (·.shift f) := by
  induction cs, h using pairsReturns_induction generalizing offset offset' with
  | nil => simp [tokensBehindLine, normaliseNewlines, tokensFrom]
  | pair cs h ih =>
    rw [normaliseNewlines, tokensBehindLine_cons (by decide), tokensBehindLine_feed,
      tokensBehindLine_feed]
    exact hread cs (by simp only [List.length_cons]; omega) h _ _ hleads.pair
  | cons c cs hc h ih =>
    rw [normaliseNewlines_cons hc]
    by_cases hfeed : c = '\n'
    · subst hfeed
      rw [tokensBehindLine_feed, tokensBehindLine_feed]
      exact hread cs (by simp) h _ _ (hleads.cons hc)
    · rw [tokensBehindLine_cons hfeed, tokensBehindLine_cons hfeed]
      exact ih (fun rest hrest => hread rest (Nat.lt_succ_of_lt hrest)) (hleads.cons hc)

/-- A text holds the same tokens with its carriage returns as without them. -/
theorem tokensFrom_normaliseNewlines (h : pairsReturns cs = true) (hleads : Leads f offset offset' cs) :
    tokensFrom offset' cs = (tokensFrom offset (normaliseNewlines cs)).map (·.shift f) := by
  -- On the length of the text: a token takes one character at least, and a comment any number.
  induction hlength : cs.length using Nat.strong_induction_on generalizing cs offset offset' with
  | _ length ih =>
    subst hlength
    have hread (rest : List Char) (hlt : rest.length < cs.length) (hrest : pairsReturns rest = true)
        (offset offset' : Nat) (hleads : Leads f offset offset' rest) := ih _ hlt hrest hleads rfl
    cases cs, h using pairsReturns_induction with
    | nil => simp [normaliseNewlines, tokensFrom]
    | pair cs h =>
      rw [normaliseNewlines, tokensFrom_blank (by decide), tokensFrom_blank (by decide),
        tokensFrom_blank (by decide)]
      exact hread cs (by simp only [List.length_cons]; omega) h _ _ hleads.pair
    | cons c cs hc h =>
      rw [normaliseNewlines_cons hc]
      by_cases hblank : isBlank c = true
      · rw [tokensFrom_blank hblank, tokensFrom_blank hblank]
        exact hread cs (by simp) h _ _ (hleads.cons hc)
      by_cases hcomment : c = '/' ∧ cs.head? = some '/'
      · obtain ⟨rfl, hslash⟩ := hcomment
        rw [tokensFrom_comment hslash, tokensFrom_comment ((head?_normaliseNewlines cs).2 hslash)]
        exact tokensBehindLine_normaliseNewlines h
          (fun rest hlt => hread rest (Nat.lt_succ_of_lt hlt)) (hleads.cons hc)
      obtain ⟨kind, front, rest, rfl, hfront, hcut, hcut'⟩ :=
        cutPiece_normaliseNewlines h (by simpa using hblank) hcomment
      have hbehind : Leads f (offset + (c :: front).length) (offset' + (c :: front).length) rest :=
        hleads.append (by simpa using ⟨Ne.symm hc, hfront⟩)
      have hstart : f offset = offset' := by simpa using hleads 0
      have hstop : f (offset + (c :: front).length) = offset' + (c :: front).length := by
        simpa using hbehind 0
      have hrest : pairsReturns rest = true := by rwa [pairsReturns_append hfront] at h
      rw [tokensFrom.eq_2, tokensFrom.eq_2, hcut, hcut', List.map_cons,
        ← hread rest (by simp only [List.length_cons, List.length_append]; omega) hrest _ _ hbehind]
      simp only [Token.shift, Span.shift, hstart, hstop]

/-- A text whose carriage returns all stand in front of line feeds holds the tokens of the text
without them. -/
theorem respells_normaliseNewlines {text : String} (h : pairsReturns text.toList = true) :
    Respells (rawOffset text.toList) (String.ofList (normaliseNewlines text.toList)) text where
  tokens := by
    rw [String.toList_ofList]
    exact tokensFrom_normaliseNewlines h fun n => by rw [Nat.zero_add, Nat.zero_add]
  length := by
    rw [String.toList_ofList]
    exact (rawOffset_length h 0).symm

end LanguageServer.Toy
