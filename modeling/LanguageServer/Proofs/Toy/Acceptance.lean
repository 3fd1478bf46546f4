import LanguageServer.Proofs.Toy.Derivation

/-!
# What is grammatical is read: expressions

A word of the grammar is read without a mistake, whatever follows it, as long as that does not go on
with the word: a sum would go on with a plus, and a name with the arguments of a call.  The numbers
that bound the reading of expressions are large enough, since each step takes a token.

## Main definitions

* `ParserState.Faces` — a word is ahead, and behind it something else.
* `Parser.Accepts` — a reader takes a word and finds nothing.
* `Parser.acceptedTerms` — the words that are read as terms.

## Main statements

* `Parser.term_le_acceptedTerms` — the terms of the grammar are read.
* `Parser.accepts_anExpression` — an expression is read up to its semicolon.
-/

namespace LanguageServer.Toy

open LanguageServer.Text
open scoped Computability

/-! ## What marks are -/

/-- A token is one mark at most. -/
theorem Token.is_eq {t : Token} {text : String} (h : t.is text = true) (other : String) :
    t.is other = (text == other) := by
  simp only [Token.is, Bool.and_eq_true, beq_iff_eq] at h
  simp [Token.is, h.1, h.2]

/-- No name is taken for a mark that closes something. -/
def Token.IsProper (t : Token) : Prop :=
  t.isIdentifier = true → t.is ")" = false ∧ t.is "\x7d" = false ∧ t.is ";" = false

/-- A token that begins a term closes nothing and is no keyword. -/
theorem Token.is_of_beginsTerm {t : Token} (h : t.beginsTerm = true) (hproper : t.IsProper)
    {text : String} (htext : text ∈ keywords ++ [")", "\x7d", ";"]) : t.is text = false := by
  simp only [beginsTerm, Bool.or_eq_true, beq_iff_eq] at h
  rcases h with (h | h) | h
  · simp [is, h]
  · simp [is, h]
  · rcases List.mem_append.1 htext with hkeyword | hmark
    · have hne : t.text ≠ text := by
        rintro rfl
        simp [isIdentifier, hkeyword] at h
      simp [is, hne]
    · have hcloses := hproper h
      simp only [List.mem_cons, List.not_mem_nil, or_false] at hmark
      rcases hmark with rfl | rfl | rfl
      · exact hcloses.1
      · exact hcloses.2.1
      · exact hcloses.2.2

theorem Token.kind_ne_finish_of_beginsTerm {t : Token} (h : t.beginsTerm = true) :
    t.kind ≠ .finish := by
  intro hfinish
  simp [beginsTerm, isIdentifier, hfinish] at h

/-- The name tokens of a text are words. -/
theorem isProper_of_mem_tokens {text : List Char} {t : Token} (h : t ∈ tokens text) :
    t.IsProper := by
  intro hname
  simp only [Token.isIdentifier, Bool.and_eq_true, beq_iff_eq] at hname
  obtain ⟨_, c, rest, -, hkind, htext, -⟩ := exists_cutPiece_of_mem_tokensFrom 0 text t h
  rw [hname.1] at hkind
  obtain ⟨hstart, hcut⟩ := cutPiece_name hkind
  have hother : ∀ d, isNameStart d = false → t.is (String.ofList [d]) = false := by
    intro d hd
    have hne : t.text ≠ String.ofList [d] := by
      intro heq
      rw [heq, hcut, String.toList_ofList] at htext
      have hsame : d = c := (List.cons.inj htext).1
      rw [hsame, hstart] at hd
      cases hd
    rw [Token.is, beq_eq_false_iff_ne.2 hne, Bool.and_false]
  exact ⟨hother ')' (by decide), hother '\x7d' (by decide), hother ';' (by decide)⟩

/-! ## Readers that take a word -/

/-- From one state to another a word is taken, and nothing is found. -/
structure ParserState.Passes (s : ParserState) (w : List Token) (t : ParserState) : Prop where
  ahead : s.ahead = w ++ t.ahead
  finish : t.finish = s.finish
  mistakes : t.draft.mistakes = s.draft.mistakes

/-- A word of proper tokens is ahead, and behind it something else up to the end. -/
structure ParserState.Faces (s : ParserState) (w rest : List Token) (finish : Token) : Prop where
  ahead : s.ahead = w ++ rest
  finish : s.finish = finish
  proper : ∀ t ∈ w, t.IsProper

namespace ParserState.Faces

variable {s t : ParserState} {token finish : Token} {v w rest : List Token}

theorem front (h : s.Faces (v ++ w) rest finish) : s.Faces v (w ++ rest) finish :=
  ⟨by rw [h.ahead, List.append_assoc], h.finish, (List.forall_mem_append.1 h.proper).1⟩

/-- Behind a part of the word the other part is ahead. -/
theorem behind (h : s.Faces (v ++ w) rest finish) (ht : s.Passes v t) : t.Faces w rest finish where
  ahead := (List.append_cancel_left (h.front.ahead.symm.trans ht.ahead)).symm
  finish := ht.finish.trans h.finish
  proper := (List.forall_mem_append.1 h.proper).2

theorem next (h : s.Faces w rest finish) : s.next = (w ++ rest).headD finish := by
  rw [ParserState.next, h.ahead, h.finish]

theorem next_cons (h : s.Faces (token :: w) rest finish) : s.next = token := by
  rw [h.next, List.cons_append, List.headD_cons]

/-- Where a term is ahead, no keyword is next, and nothing is closed. -/
theorem next_is (h : s.Faces w rest finish) (hw : Grammar.BeginsTerm w) (text : String)
    (htext : text ∈ keywords ++ [")", "\x7d", ";"]) : s.next.is text = false := by
  obtain ⟨token, more, rfl, htoken⟩ := hw
  rw [h.next_cons]
  exact Token.is_of_beginsTerm htoken (h.proper token List.mem_cons_self) htext

end ParserState.Faces

namespace Parser

variable {α β : Type} {source : String} {s : ParserState} {token finish : Token}
  {v w rest : List Token} {P : α → Prop} {R : β → Prop}

/-- A reader takes a word and finds nothing; what it yields is of a kind. -/
def Accepts (s : ParserState) (p : Parser α) (w : List Token) (P : α → Prop) : Prop :=
  ∃ a t, p s = .ok a t ∧ s.Passes w t ∧ P a

namespace Accepts

theorem pure {a : α} (h : P a) : Accepts s (Pure.pure a) [] P :=
  ⟨a, s, rfl, ⟨rfl, rfl, rfl⟩, h⟩

theorem bind {p : Parser α} {q : α → Parser β} (hp : Accepts s p v P)
    (hq : ∀ a t, s.Passes v t → P a → Accepts t (q a) w R) : Accepts s (p >>= q) (v ++ w) R := by
  obtain ⟨a, t, hp, hv, ha⟩ := hp
  obtain ⟨b, u, hq, hw, hb⟩ := hq a t hv ha
  refine ⟨b, u, ?_, ⟨?_, hw.finish.trans hv.finish, hw.mistakes.trans hv.mistakes⟩, hb⟩
  · simp only [Bind.bind, EStateM.bind, hp, hq]
  · rw [hv.ahead, hw.ahead, List.append_assoc]

/-- The last reader that takes tokens. -/
theorem last {p : Parser α} {q : α → Parser β} (hp : Accepts s p w P)
    (hq : ∀ a t, s.Passes w t → P a → Accepts t (q a) [] R) : Accepts s (p >>= q) w R := by
  simpa only [List.append_nil] using hp.bind hq

theorem get_bind {q : ParserState → Parser β} (hq : Accepts s (q s) w R) :
    Accepts s (get >>= q) w R := hq

theorem current_bind {q : Token → Parser β} (hq : Accepts s (q s.next) w R) :
    Accepts s (current >>= q) w R := hq

theorem check_bind {text : String} {q : Bool → Parser β}
    (hq : Accepts s (q (s.next.is text)) w R) : Accepts s (check text >>= q) w R := hq

theorem advance (h : s.Faces [token] rest finish) :
    Accepts s Parser.advance [token] (fun t => t = token) := by
  refine ⟨s.next, s.rest, rfl, ⟨?_, rfl, rfl⟩, h.next_cons⟩
  rw [ParserState.rest, h.ahead]
  rfl

theorem expect {text : String} (h : s.Faces [token] rest finish) (htext : token.is text = true) :
    Accepts s (Parser.expect text) [token] (fun t => t = token) := by
  refine .check_bind ?_
  rw [h.next_cons, htext]
  exact .advance h

theorem identifier (h : s.Faces [token] rest finish) (hname : token.isIdentifier = true) :
    Accepts s Parser.identifier [token] (fun name => name = token.toName) := by
  refine .current_bind ?_
  rw [h.next_cons, hname]
  exact (Accepts.advance h).last fun t _ _ ht => .pure (ht ▸ rfl)

theorem declare (source : String) (name : Name) :
    Accepts s (Parser.declare source name) [] (fun _ => True) :=
  ⟨_, _, rfl, ⟨rfl, rfl, rfl⟩, trivial⟩

end Accepts

/-! ## Expressions -/

/-- What may be repeated behind a mark is taken step by step. -/
theorem kstar_induction {text : String} {l : Language Token} {motive : List Token → Prop}
    (nil : motive [])
    (cons : ∀ token v w, token.is text = true → v ∈ l → w ∈ (Grammar.mark text * l)∗ → motive w →
      motive (token :: (v ++ w))) :
    ∀ w ∈ (Grammar.mark text * l)∗, motive w := by
  intro w hw
  obtain ⟨words, rfl, hwords⟩ := Language.mem_kstar.1 hw
  clear hw
  induction words with
  | nil => exact nil
  | cons word words ih =>
    obtain ⟨hword, hmore⟩ := List.forall_mem_cons.1 hwords
    obtain ⟨_, ⟨token, htoken, rfl⟩, v, hv, rfl⟩ := Language.mem_mul.1 hword
    exact cons token v words.flatten htoken hv (Language.join_mem_kstar hmore) (ih hmore)

/-- What is next behind a word is next behind what may be repeated, too, or it is the mark. -/
theorem headD_kstar {text : String} {l : Language Token} {Q : Token → Prop} (finish : Token)
    (rest : List Token) (hmark : ∀ t, t.is text = true → Q t) (hrest : Q (rest.headD finish)) :
    ∀ w ∈ (Grammar.mark text * l)∗, Q ((w ++ rest).headD finish) := by
  refine kstar_induction hrest fun token v w htoken _ _ _ => ?_
  rw [List.cons_append, List.headD_cons]
  exact hmark token htoken

theorem is_headD_kstar {text : String} {l : Language Token} (other : String)
    (hother : (text == other) = false) (hrest : (rest.headD finish).is other = false) :
    ∀ w ∈ (Grammar.mark text * l)∗, ((w ++ rest).headD finish).is other = false :=
  headD_kstar finish rest (fun _ h => (Token.is_eq h other).trans hother) hrest

/-- Words that are read as terms, unless arguments follow. -/
def acceptedTerms : Language Token :=
  {w | Grammar.BeginsTerm w ∧
    ∀ {s : ParserState} n rest finish, s.Faces w rest finish → 2 * w.length ≤ n + 1 →
      (rest.headD finish).is "(" = false →
      Accepts s (term n) w (fun e => e.span.start = s.position)}

theorem length_pos_of_mem_acceptedTerms (h : w ∈ acceptedTerms) : 0 < w.length := by
  obtain ⟨⟨token, more, rfl, -⟩, -⟩ := h
  exact Nat.succ_pos _

theorem beginsTerm_of_mem_sum (h : w ∈ Grammar.separated "+" acceptedTerms) :
    Grammar.BeginsTerm w := by
  obtain ⟨v, hv, more, -, rfl⟩ := Language.mem_mul.1 h
  exact hv.1.append more

theorem accepts_moreOperands :
    ∀ w ∈ (Grammar.mark "+" * acceptedTerms)∗, ∀ {s : ParserState} n rest finish,
    s.Faces w rest finish → 2 * w.length ≤ n → (rest.headD finish).is "+" = false →
    (rest.headD finish).is "(" = false → Accepts s (moreOperands n) w (fun _ => True) := by
  refine kstar_induction ?_ fun token v w hplus hv hw ih => ?_
  · intro s n rest finish hs _ hnoPlus _
    cases n with
    | zero => exact .pure trivial
    | succ n =>
      refine .check_bind ?_
      rw [hs.next, List.nil_append, hnoPlus]
      exact .pure trivial
  · intro s n rest finish hs hfuel hnoPlus hnoOpen
    rw [List.length_cons, List.length_append] at hfuel
    cases n with
    | zero => omega
    | succ n =>
      refine .check_bind ?_
      rw [hs.next_cons, hplus]
      refine (Accepts.advance (hs.front (v := [token]))).bind fun _ t ht _ => ?_
      have ht := hs.behind (v := [token]) ht
      have hbehind := is_headD_kstar _ rfl hnoOpen w hw
      refine (hv.2 n _ finish ht.front (by omega) hbehind).bind fun _ u hu _ => ?_
      exact (ih n rest finish (ht.behind hu) (by omega) hnoPlus hnoOpen).last fun _ _ _ _ =>
        .pure trivial

/-- A sum of terms is read, unless it goes on. -/
theorem accepts_sum (hw : w ∈ Grammar.separated "+" acceptedTerms) {n : Nat}
    (hs : s.Faces w rest finish) (hfuel : 2 * w.length ≤ n)
    (hnoPlus : (rest.headD finish).is "+" = false) (hnoOpen : (rest.headD finish).is "(" = false) :
    Accepts s (expression n) w (fun e => e.span.start = s.position) := by
  obtain ⟨v, hv, more, hmore, rfl⟩ := Language.mem_mul.1 hw
  have hpos := length_pos_of_mem_acceptedTerms hv
  rw [List.length_append] at hfuel
  cases n with
  | zero => omega
  | succ n =>
    -- Behind the first term stands a plus, or what follows the sum: no parenthesis in either case.
    have hbehind := is_headD_kstar _ rfl hnoOpen more hmore
    refine (hv.2 n _ finish hs.front (by omega) hbehind).bind fun first t ht hfirst => ?_
    refine (accepts_moreOperands more hmore n rest finish (hs.behind ht) (by omega) hnoPlus
      hnoOpen).last fun operands _ _ _ => ?_
    split
    · exact .pure hfirst
    · exact .pure hfirst

theorem accepts_moreArguments :
    ∀ w ∈ (Grammar.mark "," * Grammar.separated "+" acceptedTerms)∗, ∀ {s : ParserState} n rest finish,
    s.Faces w rest finish → 2 * w.length ≤ n → (rest.headD finish).is ")" = true →
    Accepts s (moreArguments n) w (fun _ => True) := by
  refine kstar_induction ?_ fun token v w hcomma hv hw ih => ?_
  · intro s n rest finish hs _ hclose
    cases n with
    | zero => exact .pure trivial
    | succ n =>
      refine .check_bind ?_
      rw [hs.next, List.nil_append, Token.is_eq hclose]
      exact .pure trivial
  · intro s n rest finish hs hfuel hclose
    rw [List.length_cons, List.length_append] at hfuel
    cases n with
    | zero => omega
    | succ n =>
      refine .check_bind ?_
      rw [hs.next_cons, hcomma]
      refine (Accepts.advance (hs.front (v := [token]))).bind fun _ t ht _ => ?_
      have ht := hs.behind (v := [token]) ht
      have hnoPlus := is_headD_kstar "+" rfl (Token.is_eq hclose _) w hw
      have hnoOpen := is_headD_kstar "(" rfl (Token.is_eq hclose _) w hw
      refine (accepts_sum hv ht.front (by omega) hnoPlus hnoOpen).bind fun _ u hu _ => ?_
      exact (ih n rest finish (ht.behind hu) (by omega) hclose).last fun _ _ _ _ => .pure trivial

theorem accepts_arguments {n : Nat}
    (hw : w ∈ Grammar.optional (Grammar.separated "," (Grammar.separated "+" acceptedTerms)))
    (hs : s.Faces w rest finish) (hfuel : 2 * w.length ≤ n)
    (hclose : (rest.headD finish).is ")" = true) : Accepts s (arguments n) w (fun _ => True) := by
  refine .check_bind ?_
  rcases Grammar.mem_optional.1 hw with rfl | hw
  · rw [hs.next, List.nil_append, hclose]
    exact .pure trivial
  · obtain ⟨first, hfirst, more, hmore, rfl⟩ := Language.mem_mul.1 hw
    have hnext := hs.next_is ((beginsTerm_of_mem_sum hfirst).append more) ")" (by decide)
    have hnoPlus := is_headD_kstar "+" rfl (Token.is_eq hclose _) more hmore
    have hnoOpen := is_headD_kstar "(" rfl (Token.is_eq hclose _) more hmore
    rw [List.length_append] at hfuel
    rw [hnext]
    refine (accepts_sum hfirst hs.front (by omega) hnoPlus hnoOpen).bind fun _ t ht _ => ?_
    exact (accepts_moreArguments more hmore n rest finish (hs.behind ht) (by omega) hclose).last
      fun _ _ _ _ => .pure trivial

/-- A single token is a literal. -/
theorem accepts_literal {n : Nat} (hs : s.Faces [token] rest finish) (hfuel : 2 ≤ n + 1)
    (hkind : token.kind = .number ∨ token.kind = .string) :
    Accepts s (term n) [token] (fun e => e.span.start = s.position) := by
  cases n with
  | zero => omega
  | succ n =>
    rw [term_succ]
    refine .current_bind ?_
    rw [ParserState.position, hs.next_cons]
    rcases hkind with hkind | hkind
    · rw [hkind]
      exact (Accepts.advance hs).last fun _ _ _ _ => .pure rfl
    · rw [hkind]
      exact (Accepts.advance hs).last fun _ _ _ _ => .pure rfl

/-- A name is read as a use or as a call. -/
theorem accepts_term_of_callOrUse {n : Nat} (hs : s.Faces ([token] ++ w) rest finish)
    (hname : token.isIdentifier = true)
    (h : Accepts s (callOrUse n token) v (fun e => e.span.start = token.span.start)) :
    Accepts s (term (n + 1)) v (fun e => e.span.start = s.position) := by
  have hkind : token.kind = .name := by
    simp only [Token.isIdentifier, Bool.and_eq_true, beq_iff_eq] at hname
    exact hname.1
  rw [term_succ]
  refine .current_bind ?_
  rw [ParserState.position, hs.next_cons, hkind]
  simp only [hname, if_true]
  exact h

/-- A name is a term, unless it is called. -/
theorem accepts_use {n : Nat} (hs : s.Faces [token] rest finish) (hfuel : 2 ≤ n + 1)
    (hname : token.isIdentifier = true) (hnoOpen : (rest.headD finish).is "(" = false) :
    Accepts s (term n) [token] (fun e => e.span.start = s.position) := by
  cases n with
  | zero => omega
  | succ n =>
    refine accepts_term_of_callOrUse (w := []) hs hname ?_
    refine (Accepts.advance hs).last fun _ t ht _ => .check_bind ?_
    have hnext : t.next = rest.headD finish := (hs.behind (w := []) ht).next
    rw [hnext, hnoOpen]
    exact .pure rfl

/-- A name is called with arguments in parentheses. -/
theorem accepts_call {n : Nat} {opening closing : Token}
    (hw : w ∈ Grammar.optional (Grammar.separated "," (Grammar.separated "+" acceptedTerms)))
    (hs : s.Faces ([token] ++ ([opening] ++ (w ++ [closing]))) rest finish)
    (hfuel : 2 * (w.length + 3) ≤ n + 1) (hname : token.isIdentifier = true)
    (hopen : opening.is "(" = true) (hclose : closing.is ")" = true) :
    Accepts s (term n) ([token] ++ ([opening] ++ (w ++ [closing])))
      (fun e => e.span.start = s.position) := by
  cases n with
  | zero => omega
  | succ n =>
    refine accepts_term_of_callOrUse hs hname ?_
    refine (Accepts.advance hs.front).bind fun _ t ht _ => .check_bind ?_
    have ht := hs.behind ht
    rw [ht.next_cons, hopen]
    refine (Accepts.advance ht.front).bind fun _ u hu _ => ?_
    have hu := ht.behind hu
    refine (accepts_arguments hw hu.front (by omega) hclose).bind fun _ v hv _ => ?_
    exact (Accepts.expect (hu.behind hv) hclose).last fun _ _ _ _ => .pure rfl

/-- The terms of the grammar are read. -/
theorem term_le_acceptedTerms : Grammar.term ≤ acceptedTerms := by
  -- Terms are the least language that satisfies its equation, so no induction on words is needed: what
  -- is made of accepted terms is accepted.
  refine Grammar.term_le fun w hw => ?_
  simp only [Grammar.termOver, mul_assoc] at hw
  rcases hw with ((⟨token, hnumber, rfl⟩ | ⟨token, hstring, rfl⟩) | ⟨token, hname, rfl⟩) | hw
  · refine ⟨⟨token, [], rfl, by simp_all [Token.beginsTerm]⟩, fun n rest finish hs hfuel _ => ?_⟩
    exact accepts_literal hs hfuel (.inl (beq_iff_eq.1 hnumber))
  · refine ⟨⟨token, [], rfl, by simp_all [Token.beginsTerm]⟩, fun n rest finish hs hfuel _ => ?_⟩
    exact accepts_literal hs hfuel (.inr (beq_iff_eq.1 hstring))
  · refine ⟨⟨token, [], rfl, by simp_all [Token.beginsTerm]⟩, fun n rest finish hs hfuel => ?_⟩
    exact accepts_use hs hfuel hname
  · obtain ⟨token, v, hname, hcall, rfl⟩ := Grammar.mem_one_mul.1 hw
    obtain ⟨opening, v, hopen, hinside, rfl⟩ := Grammar.mem_one_mul.1 hcall
    obtain ⟨w, closing, harguments, hclose, rfl⟩ := Grammar.mem_mul_one.1 hinside
    refine ⟨⟨token, _, rfl, by simp_all [Token.beginsTerm]⟩, fun n rest finish hs hfuel _ => ?_⟩
    refine accepts_call harguments hs ?_ hname hopen hclose
    simp only [List.length_append, List.length_singleton] at hfuel
    omega

/-- Before a semicolon an expression is read as a whole. -/
theorem accepts_anExpression (hw : w ∈ Grammar.expression) (hs : s.Faces w rest finish)
    (hclose : (rest.headD finish).is ";" = true) :
    Accepts s anExpression w (fun e => e.span.start = s.position) := by
  refine .get_bind (accepts_sum (Grammar.separated_mono "+" term_le_acceptedTerms hw) hs ?_
    (Token.is_eq hclose _) (Token.is_eq hclose _))
  rw [hs.ahead, List.length_append]
  omega

end Parser

end LanguageServer.Toy
