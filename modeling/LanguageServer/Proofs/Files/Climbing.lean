import LanguageServer.Proofs.Files.Normal
import LanguageServer.Proofs.Files.Resolution
import Mathlib.Data.List.Count

/-!
# How far paths climb

In the normal form of a relative path some steps back are left in front, and each spelling
of a place with more of them is another normal form: at the root, steps back say nothing.
Without links a file is therefore found under one relative normal form for each number of
steps back, and this number grows only where a path leads above the root.

## Main definitions

* `Path.IsReduced` — steps back, and then components that stand for themselves.
* `Path.LeadsAbove` — a path that leads above the root when it is seen from a directory.

## Main statements

* `Path.exists_isReduced_normalise` — normalising yields such a path.
* `Path.count_normalise_le` — the steps back that are left behind a path that stays below the root.
* `FileSystem.parts_resolve_join` — where a relative normal form leads without links.
* `FileSystem.count_joined_le` — relative imports do not take ever more steps back.
* `Path.ofString_joined` — what is seen from the directory of a relative path.
-/

namespace LanguageServer

open Text

namespace Path

/-- Steps back, and then components that stand for themselves; none of the former if the path is
absolute. -/
structure IsReduced (p : Path) (ups : Nat) (plain : List String) : Prop where
  parts : p.parts = List.replicate ups ".." ++ plain
  plain : ∀ part ∈ plain, IsPlainPart part
  rooted : p.isAbsolute = true → ups = 0

/-- A path that leads above the root when it is seen from a directory. -/
def LeadsAbove (dir : List String) (p : Path) : Prop :=
  ".." ∈ (normalise ⟨.relative, dir ++ p.parts⟩).parts

instance (dir : List String) (p : Path) : Decidable (p.LeadsAbove dir) :=
  inferInstanceAs (Decidable (".." ∈ _))

variable {p : Path} {ups : Nat} {plain : List String}

theorem notMem_of_isPlainPart (h : ∀ part ∈ plain, IsPlainPart part) : ".." ∉ plain :=
  fun hmem => (h _ hmem).notBack rfl

theorem IsReduced.isPart (h : p.IsReduced ups plain) : ∀ part ∈ p.parts, IsPart part := by
  intro part hpart
  rw [h.parts] at hpart
  rcases List.mem_append.1 hpart with hpart | hpart
  · exact List.eq_of_mem_replicate hpart ▸ isPart_back
  · exact (h.plain part hpart).isPart

theorem IsReduced.count (h : p.IsReduced ups plain) : p.parts.count ".." = ups := by
  rw [h.parts, List.count_append, List.count_eq_zero.2 (notMem_of_isPlainPart h.plain)]
  simp

/-! ## Adding components -/

section

variable {absolute : Bool} {done : List String} {part : String}

theorem pushPart_of_ne (h : part ≠ "..") : pushPart absolute done part = part :: done := if_neg h

theorem pushPart_back {last : String} (h : last ≠ "..") (before : List String) :
    pushPart absolute (last :: before) ".." = before := by
  simp [pushPart, h]

/-- Steps back are kept if nothing stands before them. -/
theorem pushPart_replicate (ups : Nat) :
    pushPart false (List.replicate ups "..") ".." = List.replicate (ups + 1) ".." := by
  cases ups <;> rfl

theorem foldl_pushPart_replicate (ups more : Nat) :
    (List.replicate more "..").foldl (pushPart false) (List.replicate ups "..") =
      List.replicate (ups + more) ".." := by
  induction more generalizing ups with
  | zero => rfl
  | succ more ih =>
    rw [List.replicate_succ, List.foldl_cons, pushPart_replicate, ih]
    congr 1
    omega

/-- At the root, steps back take components back as long as there are some. -/
theorem foldl_pushPart_drop (ups : Nat) (h : ".." ∉ done) :
    (List.replicate ups "..").foldl (pushPart true) done = done.drop ups := by
  induction ups generalizing done with
  | zero => rfl
  | succ ups ih =>
    rw [List.replicate_succ, List.foldl_cons]
    cases done with
    | nil => exact (ih List.not_mem_nil).trans (by simp)
    | cons last before =>
      obtain ⟨hlast, hbefore⟩ := not_or.1 (mt List.mem_cons.2 h)
      rw [pushPart_back (Ne.symm hlast), ih hbefore, List.drop_succ_cons]

/-- A step back that is kept stays. -/
theorem back_mem_foldl_pushPart {parts : List String} (h : ".." ∈ done) :
    ".." ∈ parts.foldl (pushPart false) done := by
  refine List.foldlRecOn (motive := (".." ∈ ·)) parts _ h fun done hdone part _ => ?_
  by_cases hpart : part = ".."
  · subst hpart
    cases done with
    | nil => cases hdone
    | cons last before =>
      by_cases hlast : last = ".."
      · simp [pushPart, hlast]
      · rw [pushPart_back hlast]
        exact (List.mem_cons.1 hdone).resolve_left (Ne.symm hlast)
  · rw [pushPart_of_ne hpart]
    exact List.mem_cons_of_mem _ hdone

/-- Components that can be read leave steps back behind components that stand for themselves. -/
theorem exists_foldl_pushPart {parts top : List String} (hparts : ∀ part ∈ parts, IsPart part)
    (htop : ∀ part ∈ top, IsPlainPart part) (hups : absolute = true → ups = 0) :
    ∃ top' ups', parts.foldl (pushPart absolute) (top ++ List.replicate ups "..") =
        top' ++ List.replicate ups' ".." ∧
      (∀ part ∈ top', IsPlainPart part) ∧ (absolute = true → ups' = 0) := by
  induction parts generalizing top ups with
  | nil => exact ⟨top, ups, rfl, htop, hups⟩
  | cons part rest ih =>
    obtain ⟨hpart, hrest⟩ := List.forall_mem_cons.1 hparts
    rw [List.foldl_cons]
    by_cases hback : part = ".."
    · subst hback
      cases top with
      | nil =>
        cases absolute with
        | false =>
          rw [List.nil_append, pushPart_replicate, ← List.nil_append (List.replicate _ _)]
          exact ih hrest htop nofun
        | true =>
          obtain rfl := hups rfl
          exact ih hrest htop fun _ => rfl
      | cons last before =>
        obtain ⟨hlast, hbefore⟩ := List.forall_mem_cons.1 htop
        rw [List.cons_append, pushPart_back hlast.notBack]
        exact ih hrest hbefore hups
    · rw [pushPart_of_ne hback]
      exact ih hrest (List.forall_mem_cons.2 ⟨hpart.isPlainPart hback, htop⟩) hups

end

/-! ## Normalising -/

/-- The normal form of a path whose components can be read. -/
theorem exists_isReduced_normalise (hparts : ∀ part ∈ p.parts, IsPart part) :
    ∃ ups plain, p.normalise.IsReduced ups plain := by
  have hempty : ∀ part ∈ ([] : List String), IsPlainPart part := fun _ => nofun
  have hnone : p.isAbsolute = true → 0 = 0 := fun _ => rfl
  obtain ⟨top, ups, hfold, htop, hups⟩ := exists_foldl_pushPart hparts hempty hnone
  refine ⟨ups, top.reverse, ?_, fun part hpart => htop part (List.mem_reverse.1 hpart), hups⟩
  rw [List.replicate_zero, List.append_nil] at hfold
  simp [normalise, hfold]

/-- Components are added to what stands on some steps back.  If they lead above nothing but `below`
where this stands in the place of the steps back, then no more of them are left than that. -/
theorem count_foldl_pushPart_le {parts top below : List String} (htop : ".." ∉ top)
    (hbelow : ".." ∉ below) (h : ".." ∉ parts.foldl (pushPart false) (top ++ below)) :
    (parts.foldl (pushPart false) (top ++ List.replicate ups "..")).count ".." ≤
      ups + below.length := by
  induction parts generalizing top below ups with
  | nil =>
    simp [List.count_eq_zero.2 htop]
  | cons part rest ih =>
    rw [List.foldl_cons] at h ⊢
    by_cases hback : part = ".."
    · subst hback
      cases top with
      | nil =>
        rw [List.nil_append] at h ⊢
        rw [pushPart_replicate]
        cases below with
        | nil => exact absurd (back_mem_foldl_pushPart (by simp [pushPart])) h
        | cons last before =>
          obtain ⟨hlast, hbefore⟩ := not_or.1 (mt List.mem_cons.2 hbelow)
          rw [pushPart_back (Ne.symm hlast)] at h
          have hle : (rest.foldl (pushPart false) ([] ++ List.replicate (ups + 1) "..")).count ".." ≤
              ups + 1 + before.length := ih htop hbefore h
          rw [List.nil_append] at hle
          rw [List.length_cons]
          omega
      | cons last before =>
        obtain ⟨hlast, hbefore⟩ := not_or.1 (mt List.mem_cons.2 htop)
        rw [List.cons_append, pushPart_back (Ne.symm hlast)] at h ⊢
        exact ih hbefore hbelow h
    · rw [pushPart_of_ne hback] at h ⊢
      exact ih (fun hmem => (List.mem_cons.1 hmem).elim (Ne.symm hback) htop) hbelow h

/-- The steps back that are left behind a path that does not lead above the root, if they stand for a
directory `below` it. -/
theorem count_normalise_le {below : List String} {q : Path} (hplain : ".." ∉ plain)
    (hbelow : ".." ∉ below) (h : ¬ q.LeadsAbove (below ++ plain)) :
    (normalise ⟨.relative, List.replicate ups ".." ++ plain ++ q.parts⟩).parts.count ".." ≤
      ups + below.length := by
  have hrelative (parts : List String) : isAbsolute ⟨.relative, parts⟩ = false := rfl
  have hdirectory : ".." ∉ below ++ plain := by simp [hbelow, hplain]
  simp only [LeadsAbove, normalise, hrelative, List.mem_reverse, List.foldl_append,
    foldl_pushPart hbelow, foldl_pushPart hplain, List.append_nil] at h
  simp only [normalise, hrelative, List.count_reverse, List.foldl_append]
  rw [show ([] : List String) = List.replicate 0 ".." from rfl, foldl_pushPart_replicate,
    foldl_pushPart hplain, Nat.zero_add, ← below.length_reverse]
  exact count_foldl_pushPart_le (by simpa using hplain) (by simpa using hbelow) h

/-! ## Directories -/

/-- The directory of a text that begins with a slash does so, too. -/
theorem head?_directoryOf {s : String} (h : s.toList.head? = some '/') :
    (directoryOf s).toList.head? = some '/' := by
  obtain ⟨rest, hrest⟩ := List.head?_eq_some_iff.1 h
  unfold directoryOf
  cases hcut : cutLast? '/' s.toList with
  | none =>
    refine absurd ?_ (cutLast?_eq_none_iff.1 hcut)
    simp [hrest]
  | some parts =>
    obtain ⟨before, after⟩ := parts
    have hs := (cutLast?_eq_some_iff.1 hcut).1
    have hhead : (before ++ ['/']).head? = some '/' := by
      cases before with
      | nil => rfl
      | cons c cs =>
        rw [hrest, List.cons_append, List.cons.injEq] at hs
        simp [← hs.1]
    simp only [String.toList_ofList]
    split
    · exact hhead
    · next hall =>
      -- What is left without slashes at the end is the front of it, and not empty.
      have hfront : dropTrailingSlashes (before ++ ['/']) <+: before ++ ['/'] :=
        List.rdropWhile_prefix _ _
      cases hdrop : dropTrailingSlashes (before ++ ['/']) with
      | nil =>
        exact absurd (List.all_eq_true.2 (List.rdropWhile_eq_nil_iff.1 hdrop)) hall
      | cons c cs =>
        obtain ⟨tail, htail⟩ := hfront
        rw [hdrop] at htail
        rw [← htail] at hhead
        exact hhead

/-- What is seen from the directory of an absolute path is absolute. -/
theorem isAbsolute_joined {s : String} (h : (ofString s).isAbsolute = true) (t : String) :
    (ofString (joinPaths (directoryOf s) t)).isAbsolute = true := by
  have hdirectory := head?_directoryOf (isAbsolute_ofString_iff.1 h)
  rw [isAbsolute_ofString_iff]
  obtain ⟨rest, hrest⟩ := List.head?_eq_some_iff.1 hdirectory
  unfold joinPaths
  split
  · next hbegins =>
    obtain ⟨cs, hcs⟩ := beginsWith_iff.1 hbegins
    simp [← hcs]
  · split <;> simp [hrest]

theorem directoryOf_of_notMem {s : String} (h : '/' ∉ s.toList) : directoryOf s = "" := by
  unfold directoryOf
  rw [cutLast?_eq_none_iff.2 h]

/-- The text of components in two parts. -/
theorem spell_append {l l' : List String} (hl : l ≠ []) (hl' : l' ≠ []) :
    spell (l ++ l') = spell l ++ '/' :: spell l' := by
  have hspell (l : List String) : spell l = (String.intercalate "/" l).toList := by
    simp [spell, String.toList_intercalate]
  rw [hspell, hspell, hspell, String.intercalate_append_of_ne_nil hl hl']
  simp

theorem getLast?_spell_ne {parts : List String} (h : ∀ part ∈ parts, IsPart part) :
    (spell parts).getLast? ≠ some '/' := by
  rcases List.eq_nil_or_concat parts with rfl | ⟨init, last, rfl⟩
  · simp [spell]
  · have hlast := h last (by simp)
    have hne : last.toList.getLast? ≠ some '/' := fun heq =>
      hlast.slashless (List.mem_of_getLast? heq)
    have hpart := hlast.toList_ne_nil
    by_cases hinit : init = []
    · simpa [hinit, spell] using hne
    · rw [List.concat_eq_append, spell_append hinit (by simp), List.getLast?_append,
        List.getLast?_cons_of_ne_nil (by simpa [spell] using hpart)]
      simpa [spell, List.getLast?_eq_some_getLast hpart] using hne

/-- The directory of some components is what stands before the last one. -/
theorem toList_directoryOf {init : List String} {last s : String}
    (hinit : ∀ part ∈ init, IsPart part) (hlast : IsPart last) (hne : init ≠ [])
    (hs : s.toList = spell (init ++ [last])) : (directoryOf s).toList = spell init := by
  have hcut : cutLast? '/' s.toList = some (spell init, last.toList) := by
    rw [hs, spell_append hne (by simp)]
    exact cutLast?_eq_some_iff.2 ⟨by simp [spell], hlast.slashless⟩
  obtain ⟨c, cs, hcs⟩ := List.exists_cons_of_ne_nil (spell_ne_nil hinit hne)
  have hc : c ≠ '/' := by simpa [hcs] using head?_spell_ne hinit
  have hall : (spell init ++ ['/']).all (· == '/') = false := by simp [hcs, hc]
  unfold directoryOf
  simp only [hcut, hall, String.toList_ofList, Bool.false_eq_true, if_false]
  show List.rdropWhile _ _ = _
  rw [List.rdropWhile_concat_pos _ _ _ (by decide), List.rdropWhile_eq_self_iff]
  intro hspell hslash
  refine getLast?_spell_ne hinit ?_
  rw [List.getLast?_eq_some_getLast hspell]
  simpa using hslash

section Joined

variable {t : String} {cs : List Char} (ht : t.toList = '.' :: cs)
include ht

/-- A text that begins with a dot is relative. -/
theorem anchor_of_dot : (ofString t).anchor = .relative := by
  simp [ofString, ht, anchorOf]

/-- A text that begins with a dot is put behind a directory. -/
theorem toList_joinPaths {base : String} (hbase : base.toList.getLast? ≠ some '/')
    (hne : base ≠ "") : (joinPaths base t).toList = base.toList ++ '/' :: t.toList := by
  unfold joinPaths
  rw [if_neg (by simp [beginsWith, ht]), if_neg (by simp [hbase, hne])]
  simp

theorem joinPaths_empty : joinPaths "" t = t := by
  unfold joinPaths
  rw [if_neg (by simp [beginsWith, ht])]
  simp

/-- What is seen from the directory of a relative path. -/
theorem ofString_joined (hparts : ∀ part ∈ p.parts, IsPart part) (hrelative : p.anchor = .relative) :
    ofString (joinPaths (directoryOf p.toString) t) =
      ⟨.relative, p.parts.dropLast ++ (ofString t).parts⟩ := by
  obtain ⟨anchor, parts⟩ := p
  obtain rfl : anchor = .relative := hrelative
  have halone : ofString (joinPaths "" t) = ⟨.relative, [] ++ (ofString t).parts⟩ := by
    rw [joinPaths_empty ht, List.nil_append, ← anchor_of_dot ht]
  rcases List.eq_nil_or_concat parts with rfl | ⟨init, last, rfl⟩
  · exact halone
  · rw [List.concat_eq_append] at hparts ⊢
    rw [List.dropLast_concat]
    have htext := toList_toString hparts (by simp)
    have hlast := hparts last (by simp)
    have hinit : ∀ part ∈ init, IsPart part := fun part hpart => hparts part (by simp [hpart])
    by_cases hne : init = []
    · subst hne
      rw [directoryOf_of_notMem (by rw [htext]; simpa [spell, anchorText] using hlast.slashless)]
      exact halone
    · have hdirectory := toList_directoryOf hinit hlast hne htext
      have hspell := spell_ne_nil hinit hne
      have hunslashed : (directoryOf (toString ⟨.relative, init ++ [last]⟩)).toList.getLast? ≠
          some '/' := by
        rw [hdirectory]
        exact getLast?_spell_ne hinit
      have hjoined := toList_joinPaths ht hunslashed
        (fun heq => hspell (by rw [← hdirectory, heq]; rfl))
      have hhead : (spell init ++ '/' :: t.toList).head? ≠ some '/' := by
        rw [List.head?_append_of_ne_nil _ hspell]
        exact head?_spell_ne hinit
      unfold ofString
      rw [hjoined, hdirectory, spell, pieces_intercalate_append (slash_notMem_toList hinit)
        (by simpa using hne), List.filter_append, List.map_append, named_toList hinit]
      exact congrArg (Path.mk · _) (anchorOf_append .relative hhead)

end Joined

end Path

/-! ## Where paths lead without links -/

namespace FileSystem

variable {fs : FileSystem} {p : Path} {ups : Nat} {plain : List String}

theorem foldl_push (r : Resolution) (parts : List String) :
    parts.foldl Resolution.push r = { r with done := parts.foldl (Path.pushPart true) r.done } := by
  induction parts generalizing r with
  | nil => rfl
  | cons part rest ih => exact ih (r.push part)

theorem resolution_of_linkless (hlinks : fs.links = .empty) (parts : List String) :
    fs.resolution parts = ⟨parts.foldl (Path.pushPart true) [], true⟩ := by
  have hlink (here : List String) : fs.links.find? here = none := by
    rw [hlinks]
    rfl
  unfold resolution resolveParts
  simp only [hlink, ite_self]
  exact foldl_push ⟨[], true⟩ parts

/-- Without links, steps back are resolved by the components alone. -/
theorem resolve_of_linkless (hlinks : fs.links = .empty) (p : Path) :
    fs.resolve p = ⟨.root, ((fs.absoluteParts p).foldl (Path.pushPart true) []).reverse⟩ := by
  unfold resolve
  rw [resolution_of_linkless hlinks]

/-- No step back is left where a path leads. -/
theorem back_notMem_resolve (hlinks : fs.links = .empty) (p : Path) :
    ".." ∉ (fs.resolve p).parts := by
  rw [resolve_of_linkless hlinks, List.mem_reverse]
  exact fun hmem => (Path.mem_foldl_pushPart (by simp) hmem).1 rfl

/-- An absolute normal form leads where it says. -/
theorem parts_resolve_of_isAbsolute (hlinks : fs.links = .empty) (h : p.IsReduced ups plain)
    (habsolute : p.isAbsolute = true) : (fs.resolve p).parts = p.parts := by
  have hplain : ".." ∉ p.parts := by
    rw [h.parts, h.rooted habsolute]
    exact Path.notMem_of_isPlainPart h.plain
  rw [resolve_of_linkless hlinks, absoluteParts, if_pos habsolute, Path.foldl_pushPart hplain]
  simp

/-- A relative normal form leads as many steps back from the base as it begins with, and then on. -/
theorem parts_resolve_join (hlinks : fs.links = .empty) (h : p.IsReduced ups plain)
    (hrelative : p.isAbsolute = false) (base : Path) :
    (fs.resolve (base.join p)).parts = ((fs.resolve base).parts.reverse.drop ups).reverse ++ plain := by
  have hparts : fs.absoluteParts (base.join p) = fs.absoluteParts base ++ p.parts := by
    have hjoin : base.join p = ⟨base.anchor, base.parts ++ p.parts⟩ := if_neg (by simp [hrelative])
    have hanchor : (base.join p).isAbsolute = base.isAbsolute := by
      rw [hjoin]
      rfl
    unfold absoluteParts
    rw [hanchor, hjoin]
    split <;> simp
  have hbase := back_notMem_resolve hlinks base
  rw [resolve_of_linkless hlinks, List.mem_reverse] at hbase
  rw [resolve_of_linkless hlinks, resolve_of_linkless hlinks base, hparts, h.parts]
  simp only [List.foldl_append, List.reverse_reverse]
  rw [Path.foldl_pushPart_drop ups hbase,
    Path.foldl_pushPart (Path.notMem_of_isPlainPart h.plain)]
  simp

/-- Where relative paths do not lead above the root, the steps back in relative normal forms do not get
more than there are components in front of the base. -/
theorem count_joined_le (hlinks : fs.links = .empty) (h : p.IsReduced ups plain)
    (hrelative : p.isAbsolute = false) {base q : Path}
    (hq : ¬ q.LeadsAbove (fs.resolve (base.join p)).parts.dropLast) :
    (Path.normalise ⟨.relative, p.parts.dropLast ++ q.parts⟩).parts.count ".." ≤
      max ups (fs.resolve base).parts.length := by
  have hbase := back_notMem_resolve hlinks base
  rw [parts_resolve_join hlinks h hrelative] at hq
  -- What is left of the base under the steps back of the path.
  generalize hbelow : ((fs.resolve base).parts.reverse.drop ups).reverse = below at hq
  have hplainBelow : ".." ∉ below := by
    rw [← hbelow, List.mem_reverse]
    exact fun hmem => hbase (List.mem_reverse.1 (List.mem_of_mem_drop hmem))
  have hlength : below.length = (fs.resolve base).parts.length - ups := by
    rw [← hbelow]
    simp
  rw [h.parts]
  by_cases hplain : plain = []
  · subst hplain
    rw [List.append_nil] at hq ⊢
    have hbelow' : ".." ∉ below.dropLast := fun hmem => hplainBelow (List.dropLast_subset _ hmem)
    have hq' : ¬ q.LeadsAbove (below.dropLast ++ []) := by rwa [List.append_nil]
    have hle : (Path.normalise
        ⟨.relative, List.replicate (ups - 1) ".." ++ [] ++ q.parts⟩).parts.count ".." ≤
          ups - 1 + below.dropLast.length :=
      Path.count_normalise_le List.not_mem_nil hbelow' hq'
    rw [List.append_nil, List.length_dropLast] at hle
    rw [List.dropLast_replicate]
    omega
  · rw [List.dropLast_append_of_ne_nil hplain] at hq ⊢
    have hplain' : ".." ∉ plain.dropLast := fun hmem =>
      Path.notMem_of_isPlainPart h.plain (List.dropLast_subset _ hmem)
    have hle : (Path.normalise
        ⟨.relative, List.replicate ups ".." ++ plain.dropLast ++ q.parts⟩).parts.count ".." ≤
          ups + below.length :=
      Path.count_normalise_le hplain' hplainBelow hq
    omega

end FileSystem

end LanguageServer
