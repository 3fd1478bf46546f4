import LanguageServer.Files.FileSystem
import Mathlib.Data.List.Perm.Subperm

/-!
# Where paths lead

A path is canonical if it stands for itself: it begins at the root, and on its way there
is neither a link nor a step back.  Resolving gives a canonical path, unless a link leads
back to itself; and what is read at a path is the file at its canonical form.

## Main definitions

* `FileSystem.IsCanonical` — paths that stand for themselves.

## Main statements

* `FileSystem.isCanonical_resolve` — resolving gives a canonical path.
* `FileSystem.resolve_of_isCanonical` — a canonical path resolves to itself.
* `FileSystem.readText_eq_ok` — the file that is read at a path.
-/

namespace LanguageServer

namespace FileSystem

open Text

/-- A path that stands for itself: from the root, without steps back, and with no link on the
way. -/
structure IsCanonical (fs : FileSystem) (p : Path) : Prop where
  anchor : p.anchor = .root
  plain : ".." ∉ p.parts
  linkFree : ∀ way, way ≠ [] → way <+: p.parts → fs.links.find? way = none

variable {fs : FileSystem}

/-- What lies above a canonical path is canonical. -/
theorem IsCanonical.of_isWithin {p dir : Path} (hp : fs.IsCanonical p)
    (h : p.isWithin dir = true) : fs.IsCanonical dir := by
  obtain ⟨hanchor, hparts⟩ := Path.isWithin_iff.1 h
  exact ⟨hanchor ▸ hp.anchor, fun hmem => hp.plain (hparts.subset hmem),
    fun way hway hbegins => hp.linkFree way hway (hbegins.trans hparts)⟩

/-! ## Following links -/

/-- Components that stand last first, without steps back and with no link on the way. -/
structure IsFree (fs : FileSystem) (done : List String) : Prop where
  plain : ".." ∉ done
  linkFree : ∀ way, way ≠ [] → way <:+ done → fs.links.find? way.reverse = none

theorem isFree_nil (fs : FileSystem) : fs.IsFree [] :=
  ⟨List.not_mem_nil, fun _ hway hsuffix => absurd (List.suffix_nil.1 hsuffix) hway⟩

theorem IsFree.isCanonical {done : List String} (h : fs.IsFree done) :
    fs.IsCanonical ⟨.root, done.reverse⟩ := by
  refine ⟨rfl, fun hmem => h.plain (List.mem_reverse.1 hmem), fun way hway hbegins => ?_⟩
  have hsuffix : way.reverse <:+ done := List.reverse_prefix.1 (by simpa using hbegins)
  simpa using h.linkFree way.reverse (by simpa using hway) hsuffix

/-- Adding a component that is no link. -/
theorem IsFree.pushPart {done : List String} (h : fs.IsFree done) {part : String}
    (hpart : part ≠ ".." → fs.links.find? (part :: done).reverse = none) :
    fs.IsFree (Path.pushPart true done part) := by
  unfold Path.pushPart
  split
  · cases done with
    | nil => exact isFree_nil fs
    | cons last before =>
      have hlast : last ≠ ".." := fun heq => h.plain (heq ▸ List.mem_cons_self)
      simp only [if_neg hlast]
      exact ⟨fun hmem => h.plain (List.mem_cons_of_mem _ hmem), fun way hway hsuffix =>
        h.linkFree way hway (hsuffix.trans (List.suffix_cons _ _))⟩
  · next hne =>
    refine ⟨fun hmem => ?_, fun way hway hsuffix => ?_⟩
    · rcases List.mem_cons.1 hmem with heq | hmem
      · exact hne heq.symm
      · exact h.plain hmem
    · rcases List.suffix_cons_iff.1 hsuffix with rfl | hsuffix
      · exact hpart hne
      · exact h.linkFree way hway hsuffix

/-- The links that are being followed are different ones, and the depth covers those that are
left. -/
structure IsFollowing (fs : FileSystem) (depth : Nat) (active : List (List String)) : Prop where
  nodup : active.Nodup
  subset : active ⊆ fs.links.keys
  covers : depth + active.length = fs.links.size + 1

/-- There are always more steps left than links that could be followed. -/
theorem IsFollowing.ne_zero {active : List (List String)} : ¬ fs.IsFollowing 0 active := by
  intro h
  have hle := (h.nodup.subperm h.subset).length_le
  have hcovers := h.covers
  have hkeys : fs.links.keys.length = fs.links.size := by simp [Table.keys, Table.size]
  omega

theorem IsFollowing.follow {depth : Nat} {active : List (List String)} {here : List String}
    {target : Path} (h : fs.IsFollowing (depth + 1) active) (hactive : active.contains here = false)
    (hlink : fs.links.find? here = some target) : fs.IsFollowing depth (here :: active) where
  nodup := List.nodup_cons.2 ⟨by simpa using hactive, h.nodup⟩
  subset := by
    refine List.cons_subset.2 ⟨?_, h.subset⟩
    exact (fs.links.contains_iff_mem_keys here).1 (by simp [Table.contains, hlink])
  covers := by
    have := h.covers
    simp only [List.length_cons]
    omega

/-- What is resolved completely has no link on the way. -/
theorem isFree_resolveParts {depth : Nat} {active : List (List String)}
    (hfollowing : fs.IsFollowing depth active) {start : Resolution} {parts : List String}
    (hstart : start.complete = true → fs.IsFree start.done)
    (hcomplete : (fs.resolveParts depth active start parts).complete = true) :
    fs.IsFree (fs.resolveParts depth active start parts).done := by
  induction depth generalizing active start parts with
  | zero => exact absurd hfollowing IsFollowing.ne_zero
  | succ depth ih =>
    unfold resolveParts at hcomplete ⊢
    -- The components are read one by one; each step keeps what is resolved free.
    refine List.foldlRecOn (motive := fun r : Resolution => r.complete = true → fs.IsFree r.done)
      parts _ hstart (fun r hr part _ hnext => ?_) hcomplete
    split at hnext
    · next hplain =>
      rw [if_pos hplain]
      rw [Bool.or_eq_true, Bool.not_eq_true', beq_iff_eq] at hplain
      rcases hplain with hfalse | rfl
      · exact absurd (show r.complete = true from hnext) (by simp [hfalse])
      · exact (hr hnext).pushPart fun hne => absurd rfl hne
    · next hplain =>
      rw [if_neg hplain]
      rw [Bool.not_eq_true, Bool.or_eq_false_iff, Bool.not_eq_false'] at hplain
      have hfree := hr hplain.1
      cases hlink : fs.links.find? (part :: r.done).reverse with
      | none =>
        simp only [hlink]
        exact hfree.pushPart fun _ => hlink
      | some target =>
        simp only [hlink] at hnext ⊢
        split at hnext
        · cases hnext
        · next hactive =>
          rw [if_neg hactive]
          refine ih (hfollowing.follow (by simpa using hactive) hlink) (fun _ => ?_) hnext
          show fs.IsFree (if target.isAbsolute = true then [] else r.done)
          split
          · exact isFree_nil fs
          · exact hfree

/-- Resolving gives a canonical path, unless a link led back to itself. -/
theorem isCanonical_resolve {p : Path}
    (h : (fs.resolution (fs.absoluteParts p)).complete = true) : fs.IsCanonical (fs.resolve p) :=
  (isFree_resolveParts ⟨List.nodup_nil, List.nil_subset _, rfl⟩ (fun _ => isFree_nil fs)
    h).isCanonical

/-! ## Canonical paths -/

/-- Components without links and steps back are kept as they are. -/
theorem resolveParts_of_linkFree (depth : Nat) (active : List (List String)) {start : Resolution}
    {parts : List String} (hplain : ".." ∉ parts)
    (hlinkFree : ∀ way, way ≠ [] → way <+: parts →
      fs.links.find? (start.done.reverse ++ way) = none) :
    fs.resolveParts depth active start parts =
      { start with done := parts.reverse ++ start.done } := by
  have hpush (r : Resolution) {part : String} (hne : part ≠ "..") :
      r.push part = { r with done := part :: r.done } := by
    simp [Resolution.push, Path.pushPart, hne]
  induction parts generalizing start with
  | nil => cases depth <;> rfl
  | cons part rest ih =>
    have hne : part ≠ ".." := fun heq => hplain (heq ▸ List.mem_cons_self)
    have hlink : fs.links.find? (part :: start.done).reverse = none := by
      simpa using hlinkFree [part] (by simp) (by simp)
    have hstep : fs.resolveParts depth active start (part :: rest) =
        fs.resolveParts depth active (start.push part) rest := by
      cases depth with
      | zero => rfl
      | succ depth =>
        rw [resolveParts, List.foldl_cons]
        simp only [hlink, ite_self]
        rw [← resolveParts]
    rw [hstep, hpush start hne]
    rw [ih (fun hmem => hplain (List.mem_cons_of_mem _ hmem)) fun way hway hbegins => ?_]
    · simp
    · simpa using hlinkFree (part :: way) (by simp) (List.cons_prefix_cons.2 ⟨rfl, hbegins⟩)

theorem absoluteParts_of_isCanonical {p : Path} (hp : fs.IsCanonical p) :
    fs.absoluteParts p = p.parts := by
  simp [absoluteParts, Path.isAbsolute, hp.anchor]

/-- A canonical path resolves to itself. -/
theorem resolve_of_isCanonical {p : Path} (hp : fs.IsCanonical p) : fs.resolve p = p := by
  unfold resolve resolution
  rw [absoluteParts_of_isCanonical hp, resolveParts_of_linkFree _ _ hp.plain (by
    simpa using hp.linkFree)]
  obtain ⟨anchor, parts⟩ := p
  obtain rfl : anchor = .root := hp.anchor
  simp

/-! ## Reading -/

/-- The bytes that are read at a path are those of the file at its canonical form. -/
theorem readBytes_eq_ok {p : Path} {bytes : List UInt8} (h : fs.readBytes p = .ok bytes) :
    fs.IsCanonical (fs.resolve p) ∧ fs.files.find? (fs.resolve p).parts = some bytes := by
  unfold readBytes at h
  simp only at h
  split at h
  · cases h
  · split at h
    · next bytes' hentry =>
      obtain rfl := Except.ok.inj h
      unfold entryAt at hentry
      simp only at hentry
      split at hentry
      · cases hentry
      · next hcomplete =>
        refine ⟨isCanonical_resolve (by simpa using hcomplete), ?_⟩
        split at hentry
        · next hfind =>
          obtain rfl := Entry.file.inj hentry
          exact hfind
        · split at hentry <;> cases hentry
    all_goals cases h

/-- The text that is read at a path is that of the file at its canonical form. -/
theorem readText_eq_ok {p : Path} {text : String} (h : fs.readText p = .ok text) :
    fs.IsCanonical (fs.resolve p) ∧ ∃ bytes characters,
      fs.files.find? (fs.resolve p).parts = some bytes ∧ decodeUtf8? bytes = some characters ∧
        text = String.ofList (normaliseNewlines characters) := by
  unfold readText at h
  cases hbytes : fs.readBytes p with
  | error e => simp [hbytes, bind, Except.bind] at h
  | ok bytes =>
    simp only [hbytes, bind, Except.bind] at h
    split at h
    · next characters hdecode =>
      obtain ⟨hcanonical, hfile⟩ := readBytes_eq_ok hbytes
      exact ⟨hcanonical, bytes, characters, hfile, hdecode, (Except.ok.inj h).symm⟩
    · cases h

end FileSystem

end LanguageServer
