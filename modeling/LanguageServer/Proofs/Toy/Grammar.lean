import LanguageServer.Toy.Parser
import LanguageServer.Proofs.Toy.Tokens
import Mathlib.Computability.Language
import Mathlib.Order.FixedPoints
import Mathlib.Order.CompletePartialOrder

/-!
# The grammar of the toy language

The phrases of the language are words of tokens.  Each construct is a language over tokens, put
together from single tokens by sums, products and stars; terms, in which expressions occur again,
are the least language that satisfies their equation.

## Main definitions

* `Grammar.mark`, `Grammar.name` — the words of one token of a kind.
* `Grammar.term`, `Grammar.expression` — terms and sums of terms.
* `Grammar.bodyStatement`, `Grammar.top` — what stands in the body of a function, and in a unit.
* `Grammar.unit` — the words of a whole unit, with its end.

## Main statements

* `Grammar.term_eq` — the equation of terms.
* `Grammar.exists_first_of_mem_top` — with which tokens an item begins.
-/

namespace LanguageServer.Toy

/-- Whether a token begins a term. -/
def Token.beginsTerm (t : Token) : Bool :=
  t.kind == .number || t.kind == .string || t.isIdentifier

namespace Grammar

open scoped Computability

/-- The words of one token that passes a test. -/
def one (test : Token → Bool) : Language Token := {w | ∃ t, test t = true ∧ w = [t]}

/-- A word or a mark of the language. -/
def mark (text : String) : Language Token := one (·.is text)

/-- A name that is no keyword. -/
def name : Language Token := one (·.isIdentifier)

/-- A number. -/
def number : Language Token := one (·.kind == .number)

/-- A string. -/
def string : Language Token := one (·.kind == .string)

/-- What may be left out. -/
def optional (l : Language Token) : Language Token := 1 + l

/-- One word or several, with a mark between any two. -/
def separated (text : String) (l : Language Token) : Language Token := l * (mark text * l)∗

section

variable {l m : Language Token} {w : List Token} {t : Token} {test : Token → Bool}

theorem singleton_mem_one (h : test t = true) : [t] ∈ one test := ⟨t, h, rfl⟩

theorem mem_one_mul : w ∈ one test * l ↔ ∃ t v, test t = true ∧ v ∈ l ∧ w = [t] ++ v := by
  constructor
  · intro h
    obtain ⟨_, ⟨t, ht, rfl⟩, v, hv, rfl⟩ := Language.mem_mul.1 h
    exact ⟨t, v, ht, hv, rfl⟩
  · rintro ⟨t, v, ht, hv, rfl⟩
    exact Language.append_mem_mul (singleton_mem_one ht) hv

theorem mem_mul_one : w ∈ l * one test ↔ ∃ v t, v ∈ l ∧ test t = true ∧ w = v ++ [t] := by
  constructor
  · intro h
    obtain ⟨v, hv, _, ⟨t, ht, rfl⟩, rfl⟩ := Language.mem_mul.1 h
    exact ⟨v, t, hv, ht, rfl⟩
  · rintro ⟨v, t, hv, ht, rfl⟩
    exact Language.append_mem_mul hv (singleton_mem_one ht)

theorem one_le_optional : 1 ≤ optional l := fun _ h => .inl h

theorem le_optional : l ≤ optional l := fun _ h => .inr h

theorem optional_mono (h : l ≤ m) : optional l ≤ optional m := add_le_add le_rfl h

theorem separated_mono (text : String) (h : l ≤ m) : separated text l ≤ separated text m :=
  mul_le_mul' h (kstar_mono (mul_le_mul' le_rfl h))

/-- Something is only left out if nothing is there. -/
theorem mem_optional : w ∈ optional l ↔ w = [] ∨ w ∈ l := Iff.rfl

end

/-! ## Expressions -/

/-- The terms whose arguments are sums of given terms. -/
def termOver (l : Language Token) : Language Token :=
  number + string + name
    + name * mark "(" * optional (separated "," (separated "+" l)) * mark ")"

theorem termOver_mono : Monotone termOver := fun _ _ h =>
  add_le_add le_rfl (mul_le_mul' (mul_le_mul' le_rfl (optional_mono
    (separated_mono _ (separated_mono _ h)))) le_rfl)

/-- Literals, names and calls. -/
def term : Language Token := OrderHom.lfp ⟨termOver, termOver_mono⟩

/-- Sums of terms. -/
def expression : Language Token := term * (mark "+" * term)∗

/-- A term is a number, a string, a name, or a name and arguments in parentheses. -/
theorem term_eq : term = number + string + name
    + name * mark "(" * optional (expression * (mark "," * expression)∗) * mark ")" :=
  (OrderHom.map_lfp ⟨termOver, termOver_mono⟩).symm

/-- Terms are no more than what their equation makes them. -/
theorem term_le {l : Language Token} (h : termOver l ≤ l) : term ≤ l :=
  OrderHom.lfp_le ⟨termOver, termOver_mono⟩ h

/-- The first token of a word begins a term. -/
def BeginsTerm (w : List Token) : Prop := ∃ t rest, w = t :: rest ∧ t.beginsTerm = true

theorem BeginsTerm.append {v : List Token} (h : BeginsTerm v) (w : List Token) :
    BeginsTerm (v ++ w) := by
  obtain ⟨t, rest, rfl, ht⟩ := h
  exact ⟨t, rest ++ w, rfl, ht⟩

theorem beginsTerm_of_mem_term {w : List Token} (h : w ∈ term) : BeginsTerm w := by
  rw [term_eq] at h
  rcases h with ((⟨t, ht, rfl⟩ | ⟨t, ht, rfl⟩) | ⟨t, ht, rfl⟩) | h
  · exact ⟨t, [], rfl, by simp_all [Token.beginsTerm]⟩
  · exact ⟨t, [], rfl, by simp_all [Token.beginsTerm]⟩
  · exact ⟨t, [], rfl, by simp_all [Token.beginsTerm]⟩
  · simp only [mul_assoc] at h
    obtain ⟨t, rest, ht, -, rfl⟩ := mem_one_mul.1 h
    exact ⟨t, rest, rfl, by simp_all [Token.beginsTerm]⟩

/-- A term is a single token, or it is a call. -/
theorem eq_nil_or_of_cons_mem_term {t : Token} {w : List Token} (h : t :: w ∈ term) :
    w = [] ∨ ∃ opening more, w = opening :: more ∧ opening.is "(" = true := by
  rw [term_eq] at h
  rcases h with ((⟨u, -, heq⟩ | ⟨u, -, heq⟩) | ⟨u, -, heq⟩) | h
  · exact .inl (List.cons.inj heq).2
  · exact .inl (List.cons.inj heq).2
  · exact .inl (List.cons.inj heq).2
  · simp only [mul_assoc] at h
    obtain ⟨u, _, -, hcall, heq⟩ := mem_one_mul.1 h
    obtain ⟨opening, more, hopen, -, rfl⟩ := mem_one_mul.1 hcall
    exact .inr ⟨opening, more, (List.cons.inj heq).2, hopen⟩

/-! ## Statements and units -/

/-- A variable. -/
def variableDeclaration : Language Token :=
  mark "var" * name * optional (mark ":" * name) * optional (mark "=" * expression) * mark ";"

/-- An assignment. -/
def assignment : Language Token := name * mark "=" * expression * mark ";"

/-- What stands in the body of a function. -/
def bodyStatement : Language Token :=
  variableDeclaration + mark "return" * optional expression * mark ";" + assignment
    + expression * mark ";"

/-- What stands in a unit. -/
def top : Language Token :=
  mark "import" * string * mark ";" + variableDeclaration
    + mark "function" * name * mark "(" * optional (name * (mark "," * name)∗) * mark ")"
      * mark "\x7b" * bodyStatement∗ * mark "\x7d"
    + assignment + expression * mark ";"

/-- A unit with its end. -/
def unit : Language Token := top∗ * one (·.kind == .finish)

theorem exists_first_of_mem_mark_mul {text : String} {l : Language Token} {w : List Token}
    (h : w ∈ mark text * l) : ∃ t rest, w = t :: rest ∧ t.is text = true := by
  obtain ⟨t, rest, ht, -, rfl⟩ := mem_one_mul.1 h
  exact ⟨t, rest, rfl, ht⟩

theorem beginsTerm_of_mem_expression_mul {l : Language Token} {w : List Token}
    (h : w ∈ expression * l) : BeginsTerm w := by
  rw [expression, mul_assoc] at h
  obtain ⟨v, hv, rest, -, rfl⟩ := Language.mem_mul.1 h
  exact (beginsTerm_of_mem_term hv).append rest

theorem beginsTerm_of_mem_assignment {w : List Token} (h : w ∈ assignment) : BeginsTerm w := by
  simp only [assignment, mul_assoc] at h
  obtain ⟨t, rest, ht, -, rfl⟩ := mem_one_mul.1 h
  exact ⟨t, rest, rfl, by simp_all [Token.beginsTerm]⟩

theorem exists_first_of_mem_variableDeclaration {w : List Token} (h : w ∈ variableDeclaration) :
    ∃ t rest, w = t :: rest ∧ t.is "var" = true := by
  simp only [variableDeclaration, mul_assoc] at h
  exact exists_first_of_mem_mark_mul h

/-- Assignments and expressions begin with a term. -/
theorem beginsTerm_of_mem_assignment_or {w : List Token}
    (h : w ∈ assignment + expression * mark ";") : BeginsTerm w :=
  h.elim beginsTerm_of_mem_assignment beginsTerm_of_mem_expression_mul

/-- What stands in a body begins with a keyword or with a term. -/
theorem exists_first_of_mem_bodyStatement {w : List Token} (h : w ∈ bodyStatement) :
    ∃ t rest, w = t :: rest ∧
      (t.is "var" = true ∨ t.is "return" = true ∨ t.beginsTerm = true) := by
  rw [bodyStatement, add_assoc] at h
  rcases h with (h | h) | h
  · obtain ⟨t, rest, rfl, ht⟩ := exists_first_of_mem_variableDeclaration h
    exact ⟨t, rest, rfl, .inl ht⟩
  · rw [mul_assoc] at h
    obtain ⟨t, rest, rfl, ht⟩ := exists_first_of_mem_mark_mul h
    exact ⟨t, rest, rfl, .inr (.inl ht)⟩
  · obtain ⟨t, rest, rfl, ht⟩ := beginsTerm_of_mem_assignment_or h
    exact ⟨t, rest, rfl, .inr (.inr ht)⟩

/-- What stands in a unit begins with a keyword or with a term. -/
theorem exists_first_of_mem_top {w : List Token} (h : w ∈ top) :
    ∃ t rest, w = t :: rest ∧ (t.is "import" = true ∨ t.is "var" = true ∨ t.is "function" = true ∨
      t.beginsTerm = true) := by
  rw [top, add_assoc] at h
  rcases h with ((h | h) | h) | h
  · rw [mul_assoc] at h
    obtain ⟨t, rest, rfl, ht⟩ := exists_first_of_mem_mark_mul h
    exact ⟨t, rest, rfl, .inl ht⟩
  · obtain ⟨t, rest, rfl, ht⟩ := exists_first_of_mem_variableDeclaration h
    exact ⟨t, rest, rfl, .inr (.inl ht)⟩
  · simp only [mul_assoc] at h
    obtain ⟨t, rest, rfl, ht⟩ := exists_first_of_mem_mark_mul h
    exact ⟨t, rest, rfl, .inr (.inr (.inl ht))⟩
  · obtain ⟨t, rest, rfl, ht⟩ := beginsTerm_of_mem_assignment_or h
    exact ⟨t, rest, rfl, .inr (.inr (.inr ht))⟩

theorem nil_notMem_bodyStatement : [] ∉ bodyStatement := by
  intro h
  obtain ⟨t, rest, hnil, -⟩ := exists_first_of_mem_bodyStatement h
  cases hnil

theorem nil_notMem_top : [] ∉ top := by
  intro h
  obtain ⟨t, rest, hnil, -⟩ := exists_first_of_mem_top h
  cases hnil

end Grammar

end LanguageServer.Toy
