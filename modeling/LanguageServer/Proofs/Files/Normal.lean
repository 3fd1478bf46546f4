import LanguageServer.Files.Path
import Mathlib.Data.List.DropRight

/-!
# Paths in normal form

An absolute path has many spellings: with dots, with steps back, with doubled slashes.
One of them is its normal form, and normalising yields it.  Two texts in normal form that
name the same place are the same text.

## Main definitions

* `Path.IsPart`, `Path.IsPlainPart` — components that can be read, and that stand for themselves.
* `Path.IsNormal` — components that stand for themselves, below the root.
* `IsNormalPath` — the text of an absolute path in its normal form.

## Main statements

* `Path.ofString_toString` — the text of a path is read back.
* `isNormalPath_normalisePath` — normalising an absolute path yields such a text.
* `IsNormalPath.eq_of_parts` — such texts are equal if they name the same place.
* `IsNormalPath.joined` — what is seen from the directory of such a text is absolute.
-/

namespace LanguageServer

open Text

namespace Text

variable {x : Char}

theorem pieces_of_notMem {s : List Char} (h : x ∉ s) : pieces x s = [s] := by
  induction s with
  | nil => rfl
  | cons c cs ih =>
    obtain ⟨hne, hcs⟩ := not_or.1 (mt List.mem_cons.2 h)
    simp [pieces, Ne.symm hne, ih hcs]

theorem pieces_append_cons {p : List Char} (h : x ∉ p) (s : List Char) :
    pieces x (p ++ x :: s) = p :: pieces x s := by
  induction p with
  | nil => simp [pieces]
  | cons c cs ih =>
    obtain ⟨hne, hcs⟩ := not_or.1 (mt List.mem_cons.2 h)
    simp [pieces, Ne.symm hne, ih hcs]

/-- Parts that are joined by a character that is in none of them are the pieces of the whole. -/
theorem pieces_intercalate {l : List (List Char)} (h : ∀ p ∈ l, x ∉ p) (hne : l ≠ []) :
    pieces x ([x].intercalate l) = l := by
  induction l with
  | nil => exact absurd rfl hne
  | cons p rest ih =>
    have hp := h p List.mem_cons_self
    cases rest with
    | nil => simpa using pieces_of_notMem hp
    | cons q rest =>
      rw [List.intercalate_cons_cons, List.append_assoc, List.singleton_append,
        pieces_append_cons hp, ih (fun p hp => h p (List.mem_cons_of_mem _ hp)) (by simp)]

/-- The same in front of a text. -/
theorem pieces_intercalate_append {l : List (List Char)} (h : ∀ p ∈ l, x ∉ p) (hne : l ≠ [])
    (s : List Char) : pieces x ([x].intercalate l ++ x :: s) = l ++ pieces x s := by
  induction l with
  | nil => exact absurd rfl hne
  | cons p rest ih =>
    have hp := h p List.mem_cons_self
    cases rest with
    | nil => simpa using pieces_append_cons hp s
    | cons q rest =>
      rw [List.intercalate_cons_cons, List.append_assoc, List.append_assoc, List.singleton_append,
        pieces_append_cons hp, ih (fun p hp => h p (List.mem_cons_of_mem _ hp)) (by simp)]
      rfl

/-- No piece holds the character at which the text is cut. -/
theorem notMem_of_mem_pieces {s p : List Char} (h : p ∈ pieces x s) : x ∉ p := by
  induction s generalizing p with
  | nil =>
    obtain rfl := List.mem_singleton.1 h
    exact List.not_mem_nil
  | cons c cs ih =>
    unfold pieces at h
    split at h
    · rcases List.mem_cons.1 h with rfl | h
      · exact List.not_mem_nil
      · exact ih h
    · next hne =>
      split at h
      · obtain rfl := List.mem_singleton.1 h
        simpa using Ne.symm hne
      · next first rest hpieces =>
        rcases List.mem_cons.1 h with rfl | h
        · have hfirst := ih (p := first) (by simp [hpieces])
          exact fun hmem => (List.mem_cons.1 hmem).elim (Ne.symm hne) hfirst
        · exact ih (by simp [hpieces, h])

end Text

namespace Path

/-! ## Components -/

/-- A component that can be read from a text: it says something, and holds no slash. -/
structure IsPart (part : String) : Prop where
  named : isNamed part.toList = true
  slashless : '/' ∉ part.toList

/-- A component that stands for itself. -/
structure IsPlainPart (part : String) : Prop where
  nonempty : part ≠ ""
  notDot : part ≠ "."
  notBack : part ≠ ".."
  slashless : '/' ∉ part.toList

/-- A path below the root whose components stand for themselves. -/
structure IsNormal (p : Path) : Prop where
  anchor : p.anchor = .root
  plain : ∀ part ∈ p.parts, IsPlainPart part

theorem IsPart.toList_ne_nil {part : String} (h : IsPart part) : part.toList ≠ [] := fun heq => by
  have hnamed := h.named
  rw [heq] at hnamed
  cases hnamed

/-- A step back can be read, too. -/
theorem isPart_back : IsPart ".." := ⟨by decide, by decide⟩

theorem IsPlainPart.isPart {part : String} (h : IsPlainPart part) : IsPart part := by
  have hempty : part.toList ≠ [] := fun heq =>
    h.nonempty (by rw [← String.ofList_toList (s := part), heq])
  have hdot : part.toList ≠ ['.'] := fun heq =>
    h.notDot (by rw [← String.ofList_toList (s := part), heq])
  exact ⟨by simp [isNamed, hdot, hempty], h.slashless⟩

/-- What can be read and is no step back stands for itself. -/
theorem IsPart.isPlainPart {part : String} (h : IsPart part) (hback : part ≠ "..") :
    IsPlainPart part := by
  refine ⟨?_, ?_, hback, h.slashless⟩ <;> rintro rfl <;> exact absurd h.named (by decide)

/-- The components of a path that is read. -/
theorem isPart_of_mem_ofString {s part : String} (h : part ∈ (ofString s).parts) : IsPart part := by
  obtain ⟨q, hq, rfl⟩ := List.mem_map.1 h
  obtain ⟨hpiece, hnamed⟩ := List.mem_filter.1 hq
  exact ⟨by rwa [String.toList_ofList], by rw [String.toList_ofList]; exact notMem_of_mem_pieces hpiece⟩

/-! ## Texts of components -/

/-- The text of some components, with a slash between each two. -/
def spell (parts : List String) : List Char := ['/'].intercalate (parts.map String.toList)

section

variable {parts : List String} (h : ∀ part ∈ parts, IsPart part)
include h

theorem head?_spell_ne : (spell parts).head? ≠ some '/' := by
  cases parts with
  | nil => simp [spell]
  | cons part rest =>
    have hpart := h part List.mem_cons_self
    obtain ⟨c, cs, hcs⟩ := List.exists_cons_of_ne_nil hpart.toList_ne_nil
    have hc : c ≠ '/' := fun heq => hpart.slashless (by simp [hcs, heq])
    cases rest with
    | nil => simp [spell, hcs, hc]
    | cons q rest => simp [spell, List.intercalate_cons_cons, hcs, hc]

theorem spell_ne_nil (hne : parts ≠ []) : spell parts ≠ [] := by
  cases parts with
  | nil => exact absurd rfl hne
  | cons part rest =>
    have hpart := (h part List.mem_cons_self).toList_ne_nil
    cases rest <;> simp [spell, List.intercalate_cons_cons, hpart]

theorem slash_notMem_toList : ∀ q ∈ parts.map String.toList, '/' ∉ q := by
  intro q hq
  obtain ⟨part, hpart, rfl⟩ := List.mem_map.1 hq
  exact (h part hpart).slashless

/-- Components that were read are kept when they are read again. -/
theorem named_toList : ((parts.map String.toList).filter isNamed).map String.ofList = parts := by
  rw [List.filter_eq_self.2 fun q hq => by
    obtain ⟨part, hpart, rfl⟩ := List.mem_map.1 hq
    exact (h part hpart).named]
  simp [Function.comp_def]

/-- Reading the components of a text back. -/
theorem named_pieces_spell :
    ((pieces '/' (spell parts)).filter isNamed).map String.ofList = parts := by
  by_cases hne : parts = []
  · rw [hne]
    rfl
  · rw [spell, pieces_intercalate (slash_notMem_toList h) (by simpa using hne), named_toList h]

end

/-! ## Texts of paths -/

/-- One slash, and no second one behind it. -/
def IsRooted (s : List Char) : Prop := s = ['/'] ∨ ∃ c cs, c ≠ '/' ∧ s = '/' :: c :: cs

/-- The anchor of a text is told by its slashes. -/
theorem anchorOf_append (a : Anchor) {s : List Char} (h : s.head? ≠ some '/') :
    anchorOf ((anchorText a).toList ++ s) = a := by
  cases s with
  | nil => cases a <;> rfl
  | cons c cs =>
    have hc : c ≠ '/' := by simpa using h
    cases a <;> simp [anchorText, anchorOf, hc]

/-- A text begins at the root if it begins with a slash. -/
theorem isAbsolute_ofString_iff {s : String} :
    (ofString s).isAbsolute = true ↔ s.toList.head? = some '/' := by
  unfold isAbsolute ofString
  cases s.toList with
  | nil => simp [anchorOf]
  | cons c cs =>
    unfold anchorOf
    split <;> simp_all

/-- A slash in front of a path adds no component. -/
theorem filter_pieces_slash (s : List Char) :
    (pieces '/' ('/' :: s)).filter isNamed = (pieces '/' s).filter isNamed := by
  simp [pieces, isNamed]

/-- The slashes of an anchor are not among the components. -/
theorem filter_pieces_anchorText (a : Anchor) (s : List Char) :
    (pieces '/' ((anchorText a).toList ++ s)).filter isNamed = (pieces '/' s).filter isNamed := by
  cases a with
  | relative => rfl
  | root => exact filter_pieces_slash s
  | doubleRoot => exact (filter_pieces_slash _).trans (filter_pieces_slash s)

theorem IsRooted.anchorOf_eq {s : List Char} (h : IsRooted s) : anchorOf s = .root := by
  obtain rfl | ⟨c, cs, hc, rfl⟩ := h
  · rfl
  · exact anchorOf_append .root (s := c :: cs) (by simpa using hc)

theorem IsRooted.append {s : List Char} (h : IsRooted s) {c : Char} (hc : c ≠ '/') (t : List Char) :
    IsRooted (s ++ c :: t) := by
  obtain rfl | ⟨d, ds, hd, rfl⟩ := h
  · exact .inr ⟨c, t, hc, rfl⟩
  · exact .inr ⟨d, ds ++ c :: t, hd, by simp⟩

section

variable {p : Path} (h : ∀ part ∈ p.parts, IsPart part)
include h

/-- The text of a path that is not empty. -/
theorem toList_toString (hne : p ≠ ⟨.relative, []⟩) :
    p.toString.toList = (anchorText p.anchor).toList ++ spell p.parts := by
  have htext : (anchorText p.anchor ++ String.intercalate "/" p.parts).toList =
      (anchorText p.anchor).toList ++ spell p.parts := by
    simp [spell, String.toList_intercalate]
  unfold toString
  simp only
  split
  · next hempty =>
    rw [String.isEmpty_iff.1 hempty] at htext
    obtain ⟨hanchor, hspell⟩ := List.append_eq_nil_iff.1 htext.symm
    obtain ⟨anchor, parts⟩ := p
    have hparts : parts = [] := by_contra fun hparts => spell_ne_nil h hparts hspell
    cases anchor with
    | relative => exact absurd (by rw [hparts]) hne
    | root => exact absurd (show (anchorText .root).toList = [] from hanchor) (by decide)
    | doubleRoot => exact absurd (show (anchorText .doubleRoot).toList = [] from hanchor) (by decide)
  · exact htext

/-- Reading back the text of a path. -/
theorem ofString_toString : ofString p.toString = p := by
  by_cases hne : p = ⟨.relative, []⟩
  · rw [hne]
    rfl
  · unfold ofString
    rw [toList_toString h hne, anchorOf_append _ (head?_spell_ne h), filter_pieces_anchorText,
      named_pieces_spell h]

end

theorem IsNormal.isPart {p : Path} (h : p.IsNormal) : ∀ part ∈ p.parts, IsPart part :=
  fun part hpart => (h.plain part hpart).isPart

theorem IsNormal.isRooted {p : Path} (h : p.IsNormal) : IsRooted p.toString.toList := by
  have hanchor := h.anchor
  rw [toList_toString h.isPart (by rintro rfl; cases hanchor), hanchor]
  have hhead := head?_spell_ne h.isPart
  cases hspell : spell p.parts with
  | nil => exact .inl rfl
  | cons c cs => exact .inr ⟨c, cs, by simpa [hspell] using hhead, rfl⟩

/-! ## Normalising -/

/-- Components without steps back are added one by one. -/
theorem foldl_pushPart {absolute : Bool} {parts : List String} (h : ".." ∉ parts)
    (done : List String) : parts.foldl (pushPart absolute) done = parts.reverse ++ done := by
  induction parts generalizing done with
  | nil => rfl
  | cons part rest ih =>
    obtain ⟨hne, hrest⟩ := not_or.1 (mt List.mem_cons.2 h)
    rw [List.foldl_cons, ih hrest]
    simp [pushPart, Ne.symm hne]

/-- A step back at the root says nothing, so none is left, and all other components come from the
path. -/
theorem mem_foldl_pushPart {parts done : List String} {part : String}
    (hdone : ∀ q ∈ done, q ≠ "..") (h : part ∈ parts.foldl (pushPart true) done) :
    part ≠ ".." ∧ (part ∈ done ∨ part ∈ parts) := by
  induction parts generalizing done with
  | nil => exact ⟨hdone part h, .inl h⟩
  | cons first rest ih =>
    have hpushed : ∀ q ∈ pushPart true done first, q ≠ ".." ∧ (q ∈ done ∨ q = first) := by
      intro q hq
      unfold pushPart at hq
      split at hq
      · cases done with
        | nil => simp at hq
        | cons last before =>
          simp only [hdone last List.mem_cons_self, if_false] at hq
          exact ⟨hdone q (List.mem_cons_of_mem _ hq), .inl (List.mem_cons_of_mem _ hq)⟩
      · next hne =>
        rcases List.mem_cons.1 hq with rfl | hq
        · exact ⟨hne, .inr rfl⟩
        · exact ⟨hdone q hq, .inl hq⟩
    obtain ⟨hback, hmem⟩ := ih (fun q hq => (hpushed q hq).1) h
    refine ⟨hback, ?_⟩
    rcases hmem with hmem | hmem
    · exact (hpushed part hmem).2.imp_right fun heq : part = first => heq ▸ List.mem_cons_self
    · exact .inr (List.mem_cons_of_mem _ hmem)

/-- A path in normal form is its own normal form. -/
theorem IsNormal.normalise_eq {p : Path} (h : p.IsNormal) : p.normalise = p := by
  have hplain : ".." ∉ p.parts := fun hmem => (h.plain _ hmem).notBack rfl
  simp [normalise, foldl_pushPart hplain]

/-- Normalising a path that is read at the root. -/
theorem isNormal_normalise {s : String} (h : (ofString s).anchor = .root) :
    (ofString s).normalise.IsNormal := by
  refine ⟨h, fun part hpart => ?_⟩
  have habsolute : (ofString s).isAbsolute = true := by simp [isAbsolute, h]
  simp only [normalise, habsolute, List.mem_reverse] at hpart
  obtain ⟨hback, hmem⟩ := mem_foldl_pushPart (by simp) hpart
  exact (isPart_of_mem_ofString (hmem.resolve_left List.not_mem_nil)).isPlainPart hback

end Path

/-! ## Texts in normal form -/

/-- The text of an absolute path in its normal form. -/
structure IsNormalPath (s : String) : Prop where
  anchor : (Path.ofString s).anchor = .root
  normal : normalisePath s = s

/-- Normalising an absolute path yields a text in normal form. -/
theorem isNormalPath_normalisePath {s : String} (h : (Path.ofString s).anchor = .root) :
    IsNormalPath (normalisePath s) := by
  have hnormal := Path.isNormal_normalise h
  have hread : Path.ofString (normalisePath s) = (Path.ofString s).normalise :=
    Path.ofString_toString hnormal.isPart
  refine ⟨hread ▸ hnormal.anchor, ?_⟩
  show (Path.ofString (normalisePath s)).normalise.toString = normalisePath s
  rw [hread, hnormal.normalise_eq]
  rfl

/-- Texts in normal form are equal if they name the same place. -/
theorem IsNormalPath.eq_of_parts {s t : String} (hs : IsNormalPath s) (ht : IsNormalPath t)
    (h : (Path.ofString s).normalise.parts = (Path.ofString t).normalise.parts) : s = t := by
  have hpaths : (Path.ofString s).normalise = (Path.ofString t).normalise := by
    rw [show (Path.ofString s).normalise = ⟨(Path.ofString s).anchor, _⟩ from rfl,
      show (Path.ofString t).normalise = ⟨(Path.ofString t).anchor, _⟩ from rfl, hs.anchor, ht.anchor]
    exact congrArg _ h
  calc s = normalisePath s := hs.normal.symm
    _ = normalisePath t := congrArg Path.toString hpaths
    _ = t := ht.normal

/-! ## Directories -/

theorem IsNormalPath.isRooted {s : String} (h : IsNormalPath s) : Path.IsRooted s.toList := by
  rw [← h.normal]
  exact (Path.isNormal_normalise h.anchor).isRooted

theorem isRooted_dropTrailingSlashes {c : Char} (hc : c ≠ '/') (s : List Char) :
    Path.IsRooted (dropTrailingSlashes ('/' :: c :: s)) := by
  unfold dropTrailingSlashes
  rw [List.reverse_cons, List.reverse_cons, List.append_assoc, List.dropWhile_append]
  split
  · exact .inr ⟨c, [], hc, by simp [hc]⟩
  · exact .inr ⟨c, (s.reverse.dropWhile (· == '/')).reverse, hc, by simp⟩

theorem isRooted_directoryOf {s : String} (h : Path.IsRooted s.toList) :
    Path.IsRooted (directoryOf s).toList := by
  unfold directoryOf
  cases hcut : cutLast? '/' s.toList with
  | none =>
    refine absurd ?_ (cutLast?_eq_none_iff.1 hcut)
    obtain hs | ⟨c, cs, -, hs⟩ := h <;> simp [hs]
  | some parts =>
    obtain ⟨before, after⟩ := parts
    obtain ⟨hs, -⟩ := cutLast?_eq_some_iff.1 hcut
    simp only
    rw [String.toList_ofList]
    cases before with
    | nil => exact .inl rfl
    | cons d before =>
      -- The text does not begin with two slashes, so a name stands before the last one.
      obtain ⟨c, rest, hc, hbefore⟩ : ∃ c rest, c ≠ '/' ∧ d :: before = '/' :: c :: rest := by
        obtain hs' | ⟨c, cs, hc, hs'⟩ := h
        · rw [hs] at hs'
          simp at hs'
        · rw [hs, List.cons_append, List.cons.injEq] at hs'
          obtain ⟨rfl, hs'⟩ := hs'
          cases before with
          | nil => exact absurd (List.cons.inj hs').1.symm hc
          | cons c' rest =>
            obtain ⟨rfl, -⟩ := List.cons.inj hs'
            exact ⟨c', rest, hc, rfl⟩
      rw [hbefore, List.cons_append, List.cons_append, if_neg (by simp [hc])]
      exact isRooted_dropTrailingSlashes hc _

/-- What begins with a dot is absolute when seen from the directory of a text in normal form. -/
theorem IsNormalPath.joined {s t : String} (h : IsNormalPath s) {cs : List Char}
    (ht : t.toList = '.' :: cs) : (Path.ofString (joinPaths (directoryOf s) t)).anchor = .root := by
  have hdirectory := isRooted_directoryOf h.isRooted
  refine Path.IsRooted.anchorOf_eq ?_
  unfold joinPaths
  rw [if_neg (by simp [beginsWith, ht])]
  split
  · rw [String.toList_append, ht]
    exact hdirectory.append (by decide) cs
  · next hslash =>
    rw [String.toList_append, String.toList_append, ht]
    obtain heq | ⟨c, ds, hc, heq⟩ := hdirectory
    · exact absurd (by simp [heq]) hslash
    · rw [heq]
      exact .inr ⟨c, _, hc, rfl⟩

end LanguageServer
