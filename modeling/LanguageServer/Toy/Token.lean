import LanguageServer.Text.Blank
import LanguageServer.Text.Word

/-!
# Tokens of the toy language

The toy language is a small language on which the server can be tried out.  Its texts
consist of strings, numbers, names and punctuation; white space and comments stand
between them.  At each place the first reading that fits is taken: white space, a
comment up to the end of its line, a string closed on its line, digits, a name,
punctuation, and at last any single character.

## Main definitions

* `Token` — a piece of text with its place.
* `tokens` — the tokens of a text, without the end.
* `endToken` — what stands behind the last token.
-/

namespace LanguageServer.Toy

open LanguageServer.Text

/-- The characters of a text from `start` up to `stop`. -/
structure Span where
  start : Nat
  stop : Nat
  deriving DecidableEq, Repr

/-- The sorts of tokens; a stray token is one that no construct of the language uses. -/
inductive TokenKind where
  | string
  | number
  | name
  | punctuation
  | stray
  | finish
  deriving DecidableEq, Repr

/-- A piece of text with its place. -/
structure Token where
  kind : TokenKind
  text : String
  span : Span
  deriving DecidableEq, Repr

/-- The words that are no identifiers. -/
def keywords : List String := ["import", "var", "function", "return"]

/-- Whether a token can name something. -/
def Token.isIdentifier (t : Token) : Bool := t.kind == .name && !keywords.contains t.text

/-- Whether a token is the given word or mark; strings are never taken for one. -/
def Token.is (t : Token) (text : String) : Bool :=
  (t.kind == .punctuation || t.kind == .name) && t.text == text

/-- The text of a token in a message. -/
def Token.shown (t : Token) : String := if t.text.isEmpty then "end of file" else t.text

/-! ## Cutting off the first piece -/

/-- What a piece of text is. -/
inductive Piece where
  | space
  | comment
  | token (kind : TokenKind)
  deriving DecidableEq, Repr

/-- Whether a character is a mark of the language. -/
def isPunctuation (c : Char) : Bool := ['{', '}', '(', ')', ';', '=', ':', '+', ','].contains c

/-- The text up to and with a closing quote on the same line, and what follows. -/
def closeString? : List Char → Option (List Char × List Char)
  | [] => none
  | c :: cs =>
    if c = '"' then some ([c], cs)
    else if c = '\n' then none
    else (closeString? cs).map fun parts => (c :: parts.1, parts.2)

/-- A piece made of a character and those behind it that satisfy `p`. -/
def cutWhile (piece : Piece) (p : Char → Bool) (c : Char) (cs : List Char) :
    Piece × List Char × List Char :=
  (piece, c :: cs.takeWhile p, cs.dropWhile p)

/-- The first piece of a text that is not empty: what it is, its characters, and the rest. -/
def cutPiece (c : Char) (cs : List Char) : Piece × List Char × List Char :=
  if isBlank c then cutWhile .space isBlank c cs
  else if c = '/' ∧ cs.head? = some '/' then cutWhile .comment (· != '\n') c cs
  else if c = '"' then
    match closeString? cs with
    | some (body, rest) => (.token .string, c :: body, rest)
    | none => (.token .stray, [c], cs)
  else if isDigit c then cutWhile (.token .number) isDigit c cs
  else if isNameStart c then cutWhile (.token .name) isWord c cs
  else if isPunctuation c then (.token .punctuation, [c], cs)
  else (.token .stray, [c], cs)

theorem closeString?_append {cs body rest : List Char} (h : closeString? cs = some (body, rest)) :
    body ++ rest = cs := by
  induction cs generalizing body with
  | nil => simp [closeString?] at h
  | cons c cs ih =>
    by_cases hq : c = '"'
    · simp only [closeString?, hq, if_true, Option.some.injEq, Prod.mk.injEq] at h
      simp [← h.1, h.2, hq]
    · by_cases hn : c = '\n'
      · simp [closeString?, hn] at h
      · simp only [closeString?, hq, hn, if_false, Option.map_eq_some_iff, Prod.exists,
          Prod.mk.injEq] at h
        obtain ⟨p, q, hpq, rfl, rfl⟩ := h
        simp [ih hpq]

/-- A piece and the rest are the whole text. -/
theorem cutPiece_append (c : Char) (cs : List Char) :
    (cutPiece c cs).2.1 ++ (cutPiece c cs).2.2 = c :: cs := by
  unfold cutPiece
  split
  · simp [cutWhile]
  split
  · simp [cutWhile]
  split
  · split
    · rename_i h
      simp [closeString?_append h]
    · rfl
  split
  · simp [cutWhile]
  split
  · simp [cutWhile]
  split <;> rfl

/-- A piece begins with the first character of the text. -/
theorem cutPiece_ne_nil (c : Char) (cs : List Char) : (cutPiece c cs).2.1 ≠ [] := by
  unfold cutPiece
  split
  · simp [cutWhile]
  split
  · simp [cutWhile]
  split
  · split <;> simp
  split
  · simp [cutWhile]
  split
  · simp [cutWhile]
  split <;> simp

/-- Behind a piece there is less text. -/
theorem length_cutPiece_lt (c : Char) (cs : List Char) :
    (cutPiece c cs).2.2.length < (c :: cs).length := by
  have h := congrArg List.length (cutPiece_append c cs)
  have := List.length_pos_iff.2 (cutPiece_ne_nil c cs)
  simp only [List.length_append] at h
  omega

/-! ## All tokens -/

/-- The tokens of a text that begins at `offset`. -/
def tokensFrom (offset : Nat) : List Char → List Token
  | [] => []
  | c :: cs =>
    let taken := (cutPiece c cs).2.1
    let next := offset + taken.length
    match (cutPiece c cs).1 with
    | .token kind =>
      ⟨kind, String.ofList taken, ⟨offset, next⟩⟩ :: tokensFrom next (cutPiece c cs).2.2
    | _ => tokensFrom next (cutPiece c cs).2.2
termination_by cs => cs.length
decreasing_by all_goals exact length_cutPiece_lt c cs

/-- The tokens of a text, without the end. -/
def tokens (text : List Char) : List Token := tokensFrom 0 text

/-- What stands behind the last token: an empty token at the end of the text. -/
def endToken (text : List Char) : Token := ⟨.finish, "", ⟨text.length, text.length⟩⟩

end LanguageServer.Toy
