import LanguageServer.Files.Uri
import LanguageServer.Proofs.Json.Ascii
import LanguageServer.Proofs.Text.Utf8

/-!
# Paths that are read back from their URIs

Percent coding can be undone, whatever characters a text holds.  So the URI of a path names
this path again, with a few exceptions: a path with a drive letter loses its first slash, one
that is relative is taken to begin at the root, and one of a host without a slash behind it has
no URI at all.

## Main definitions

* `Uri.IsWritten` — a path has a URI and no drive letter.
* `Uri.hostText`, `Uri.rooted` — the two parts of the path that is read back.

## Main statements

* `Uri.decodePercent_encodePercent` — percent coding can be undone.
* `Uri.toPath?_ofPath` — the path that the URI of a path names.
-/

namespace LanguageServer.Uri

open Text

/-! ## Percent coding -/

theorem isAscii_of_isPlain {c : Char} (h : isPlain c = true) : isAscii c = true := by
  have hkinds : c.isAlphanum = true ∨ c ∈ ['_', '.', '-', '~', '/'] := by
    simpa [isPlain, or_assoc] using h
  rcases hkinds with hword | hmark
  · have hranges : ((65 ≤ c.toNat ∧ c.toNat ≤ 90) ∨ 97 ≤ c.toNat ∧ c.toNat ≤ 122) ∨
        48 ≤ c.toNat ∧ c.toNat ≤ 57 := by
      have hvalues : ((decide (65 ≤ c.val ∧ c.val ≤ 90) ||
          (decide (97 ≤ c.val) && decide (c.val ≤ 122))) ||
            (decide (48 ≤ c.val) && decide (c.val ≤ 57))) = true := hword
      simpa [UInt32.le_iff_toNat_le] using hvalues
    exact decide_eq_true (by omega)
  · exact List.all_eq_true.1 (by decide : ['_', '.', '-', '~', '/'].all isAscii = true) c hmark

theorem hexValue?_upperHexDigit : ∀ n < 16, Json.hexValue? (upperHexDigit n) = some n := by decide

theorem isPlain_upperHexDigit : ∀ n < 16, isPlain (upperHexDigit n) = true := by decide

theorem upperHexDigit_ne_slash : ∀ n < 16, upperHexDigit n ≠ '/' := by decide

theorem encodePercent_cons (c : Char) (s : List Char) :
    encodePercent (c :: s) =
      (if isPlain c then [c] else (encodeUtf8 [c]).flatMap encodeByte) ++ encodePercent s :=
  List.flatMap_cons

/-- Plain characters stand for themselves. -/
theorem encodePercent_of_isPlain {s : List Char} (h : ∀ c ∈ s, isPlain c = true) :
    encodePercent s = s := by
  induction s with
  | nil => rfl
  | cons c cs ih =>
    obtain ⟨hc, hcs⟩ := List.forall_mem_cons.1 h
    rw [encodePercent_cons, if_pos hc, ih hcs]
    rfl

theorem hasAuthorityMark_of_notMem {s : List Char} (h : ':' ∉ s) : hasAuthorityMark s = false := by
  induction s with
  | nil => rfl
  | cons c cs ih =>
    unfold hasAuthorityMark
    split
    · next heq =>
      rw [heq] at h
      exact absurd List.mem_cons_self h
    · next heq =>
      obtain ⟨-, rfl⟩ := List.cons.inj heq
      exact ih fun hmem => h (List.mem_cons_of_mem c hmem)
    · rfl

/-- The characters of percent coding: plain ones of the text, percent signs and digits. -/
theorem mem_encodePercent {c : Char} {s : List Char} (h : c ∈ encodePercent s) :
    (c ∈ s ∧ isPlain c = true) ∨ c = '%' ∨ ∃ n < 16, c = upperHexDigit n := by
  obtain ⟨d, hd, hc⟩ := List.mem_flatMap.1 h
  split at hc
  · next hplain =>
    obtain rfl := List.mem_singleton.1 hc
    exact .inl ⟨hd, hplain⟩
  · obtain ⟨b, -, hb⟩ := List.mem_flatMap.1 hc
    have hlt := b.toNat_lt
    simp only [encodeByte, List.mem_cons, List.not_mem_nil, or_false] at hb
    rcases hb with rfl | rfl | rfl
    · exact .inr (.inl rfl)
    · exact .inr (.inr ⟨_, by omega, rfl⟩)
    · exact .inr (.inr ⟨_, by omega, rfl⟩)

/-- A character that is neither plain nor a percent sign does not occur in percent coding. -/
theorem notMem_encodePercent {x : Char} (hplain : isPlain x = false) (hpercent : x ≠ '%')
    (s : List Char) : x ∉ encodePercent s := by
  intro h
  rcases mem_encodePercent h with ⟨-, h⟩ | h | ⟨n, hn, rfl⟩
  · simp [hplain] at h
  · exact hpercent h
  · simp [isPlain_upperHexDigit n hn] at hplain

theorem slash_notMem_encodePercent {s : List Char} (h : '/' ∉ s) : '/' ∉ encodePercent s := by
  intro hmem
  rcases mem_encodePercent hmem with ⟨hs, -⟩ | hpercent | ⟨n, hn, heq⟩
  · exact h hs
  · exact absurd hpercent (by decide)
  · exact upperHexDigit_ne_slash n hn heq.symm

theorem isAscii_of_mem_encodePercent {c : Char} {s : List Char} (h : c ∈ encodePercent s) :
    isAscii c = true := by
  rcases mem_encodePercent h with ⟨-, h⟩ | rfl | ⟨n, hn, rfl⟩
  · exact isAscii_of_isPlain h
  · decide
  · exact isAscii_of_isPlain (isPlain_upperHexDigit n hn)

theorem percentBytes_encodeByte (b : UInt8) (s : List Char) :
    percentBytes (encodeByte b ++ s) = b :: percentBytes s := by
  have hlt := b.toNat_lt
  simp only [encodeByte, List.cons_append, List.nil_append, percentBytes,
    hexValue?_upperHexDigit (b.toNat / 16) (by omega),
    hexValue?_upperHexDigit (b.toNat % 16) (by omega)]
  rw [show b.toNat / 16 * 16 + b.toNat % 16 = b.toNat by omega, UInt8.ofNat_toNat]

theorem percentBytes_flatMap_encodeByte (bs : List UInt8) (s : List Char) :
    percentBytes (bs.flatMap encodeByte ++ s) = bs ++ percentBytes s := by
  induction bs with
  | nil => rfl
  | cons b bs ih =>
    rw [List.flatMap_cons, List.append_assoc, percentBytes_encodeByte, ih, List.cons_append]

theorem percentBytes_cons {c : Char} (h : c ≠ '%') (s : List Char) :
    percentBytes (c :: s) = UInt8.ofNat c.toNat :: percentBytes s := by
  rw [percentBytes]
  rintro a b cs rfl
  exact absurd rfl h

/-- Percent coding stands for the bytes of the text. -/
theorem percentBytes_encodePercent (s : List Char) : percentBytes (encodePercent s) = encodeUtf8 s := by
  induction s with
  | nil => rfl
  | cons c cs ih =>
    have hcons : encodeUtf8 (c :: cs) = encodeUtf8 [c] ++ encodeUtf8 cs := encodeUtf8_append [c] cs
    rw [encodePercent_cons, hcons]
    split
    · next hplain =>
      have hascii : Text.IsAscii [c] := by
        simpa [isAscii] using isAscii_of_isPlain hplain
      rw [List.singleton_append, percentBytes_cons (by rintro rfl; exact absurd hplain (by decide)),
        ih, encodeUtf8_eq_map hascii]
      rfl
    · rw [percentBytes_flatMap_encodeByte, ih]

theorem decodePercentFrom_of_isAscii {s : List Char} (h : ∀ c ∈ s, isAscii c = true)
    (run : List Char) : decodePercentFrom run s = decodeRun (run.reverse ++ s) := by
  induction s generalizing run with
  | nil => simp [decodePercentFrom]
  | cons c cs ih =>
    rw [decodePercentFrom, if_pos (h c List.mem_cons_self),
      ih fun d hd => h d (List.mem_cons_of_mem c hd)]
    simp

/-- Percent coding can be undone. -/
theorem decodePercent_encodePercent (s : List Char) : decodePercent (encodePercent s) = s := by
  rw [decodePercent, decodePercentFrom_of_isAscii fun _ => isAscii_of_mem_encodePercent,
    List.reverse_nil, List.nil_append, decodeRun, percentBytes_encodePercent,
    decodeReplacing_encodeUtf8]

/-! ## URIs and paths -/

/-- The text of the host in front of a path. -/
def hostText (host : List Char) : List Char := if host = [] then [] else '/' :: '/' :: host

theorem beforeFirst_of_notMem {x : Char} {s : List Char} (h : x ∉ s) : beforeFirst x s = s :=
  List.takeWhile_eq_self_iff.2 fun c hc => by
    simp only [bne_iff_ne]
    rintro rfl
    exact h hc

theorem cutHost_coded {host rest : List Char} (hhost : '/' ∉ host) :
    cutHost ('/' :: '/' :: (encodePercent host ++ '/' :: rest)) =
      (encodePercent host, '/' :: rest) := by
  have hends : ∀ c ∈ encodePercent host, (!(c == '/' || c == '?' || c == '#')) = true := by
    intro c hc
    have hslash : c ≠ '/' := fun heq => slash_notMem_encodePercent hhost (heq ▸ hc)
    have hquery : c ≠ '?' := fun heq =>
      notMem_encodePercent (by decide : isPlain '?' = false) (by decide) host (heq ▸ hc)
    have hfragment : c ≠ '#' := fun heq =>
      notMem_encodePercent (by decide : isPlain '#' = false) (by decide) host (heq ▸ hc)
    simp [hslash, hquery, hfragment]
  simp only [cutHost]
  rw [List.takeWhile_append_of_pos hends, List.dropWhile_append_of_pos hends]
  simp

/-- Nothing is dropped from percent coding when a URI is read. -/
theorem filter_encodePercent (s : List Char) :
    (encodePercent s).filter (fun c => c != '\t' && c != '\r' && c != '\n') = encodePercent s := by
  refine List.filter_eq_self.2 fun c hc => ?_
  have htab : c ≠ '\t' := fun heq =>
    notMem_encodePercent (by decide : isPlain '\t' = false) (by decide) s (heq ▸ hc)
  have hreturn : c ≠ '\r' := fun heq =>
    notMem_encodePercent (by decide : isPlain '\r' = false) (by decide) s (heq ▸ hc)
  have hfeed : c ≠ '\n' := fun heq =>
    notMem_encodePercent (by decide : isPlain '\n' = false) (by decide) s (heq ▸ hc)
  simp [htab, hreturn, hfeed]

/-- The path that a URI with a percent-coded host and path names, if this has no drive letter. -/
theorem toPath?_coded {host path : List Char} (hhost : '/' ∉ host) (hrooted : path.head? = some '/')
    (hdrive : beginsWithDrive path = false) :
    toPath? (String.ofList ("file://".toList ++ encodePercent host ++ encodePercent path)) =
      .ok (some (String.ofList (hostText host ++ path))) := by
  obtain ⟨rest, rfl⟩ := List.head?_eq_some_iff.1 hrooted
  have hslash : encodePercent ('/' :: rest) = '/' :: encodePercent rest := by
    rw [encodePercent_cons]
    rfl
  have hkept : ("file://".toList ++ encodePercent host ++ encodePercent ('/' :: rest)).filter
      (fun c => c != '\t' && c != '\r' && c != '\n') =
        'f' :: "ile".toList ++ ':' :: '/' :: '/' :: (encodePercent host ++ '/' :: encodePercent rest) := by
    rw [List.filter_append, List.filter_append, filter_encodePercent, filter_encodePercent, hslash,
      show "file://".toList.filter _ = "file://".toList by decide, List.append_assoc]
    rfl
  have hscheme : cutScheme ('f' :: "ile".toList ++
      ':' :: '/' :: '/' :: (encodePercent host ++ '/' :: encodePercent rest)) =
        ("file".toList, '/' :: '/' :: (encodePercent host ++ '/' :: encodePercent rest)) := by
    unfold cutScheme
    rw [cutFirst?_eq_some_iff.2 ⟨rfl, by decide⟩]
    exact if_pos (by decide)
  have hopening : (encodePercent host).contains '[' = false := by
    simpa using notMem_encodePercent (by decide) (by decide) host
  have hclosing : (encodePercent host).contains ']' = false := by
    simpa using notMem_encodePercent (by decide) (by decide) host
  have hfragment : '#' ∉ '/' :: encodePercent rest :=
    hslash ▸ notMem_encodePercent (by decide) (by decide) _
  have hquery : '?' ∉ '/' :: encodePercent rest :=
    hslash ▸ notMem_encodePercent (by decide) (by decide) _
  have hpath : decodePercent ('/' :: encodePercent rest) = '/' :: rest :=
    hslash ▸ decodePercent_encodePercent _
  unfold toPath? hostText
  simp only [String.toList_ofList, hkept, hscheme, cutHost_coded hhost, hopening, hclosing,
    beforeFirst_of_notMem hfragment, beforeFirst_of_notMem hquery, decodePercent_encodePercent host,
    hpath, hdrive]
  by_cases hempty : host = [] <;> simp [hempty]

/-- The path that stands for a path without a host in its URI. -/
def rooted (path : List Char) : List Char := if path.head? = some '/' then path else '/' :: path

theorem head?_rooted (path : List Char) : (rooted path).head? = some '/' := by
  unfold rooted
  split
  · assumption
  · rfl

/-- A path that has a URI and no drive letter. -/
structure IsWritten (path : String) (host rest : List Char) : Prop where
  cut : cutHostPath path.toList = .ok (host, rest)
  driveless : beginsWithDrive (rooted rest) = false

theorem slash_notMem_of_cutHostPath {s host rest : List Char} (h : cutHostPath s = .ok (host, rest)) :
    '/' ∉ host := by
  unfold cutHostPath at h
  split at h
  · split at h
    · next heq =>
      obtain ⟨rfl, -⟩ := Prod.mk.inj (Except.ok.inj h)
      exact (cutFirst?_eq_some_iff.1 heq).2
    · cases h
  · obtain ⟨rfl, -⟩ := Prod.mk.inj (Except.ok.inj h)
    exact List.not_mem_nil

theorem beginsWith_of_ofPath {path uri : String} (h : ofPath path = .ok uri) :
    beginsWith "file:" uri = true := by
  unfold ofPath at h
  cases hcut : cutHostPath path.toList with
  | error e => simp [hcut, bind, Except.bind] at h
  | ok cut =>
    simp only [hcut, bind, Except.bind, pure, Except.pure, Except.ok.injEq] at h
    rw [← h, beginsWith_iff]
    simp only [String.toList_ofList, List.append_assoc]
    exact ⟨_, rfl⟩

/-- The URI of a path. -/
theorem ofPath_eq {path : String} {host rest : List Char} (h : IsWritten path host rest) :
    ofPath path =
      .ok (String.ofList ("file://".toList ++ encodePercent host ++ encodePercent (rooted rest))) := by
  unfold ofPath
  rw [h.cut]
  simp only [bind, Except.bind, pure, Except.pure]
  rw [show (if rest.head? = some '/' then rest else '/' :: rest) = rooted rest from rfl,
    if_neg (by simp [h.driveless])]

/-- The URI of a path names the path again, taken to begin at the root. -/
theorem toPath?_ofPath {path : String} {host rest : List Char} (h : IsWritten path host rest) :
    ∃ uri, ofPath path = .ok uri ∧
      toPath? uri = .ok (some (String.ofList (hostText host ++ rooted rest))) :=
  ⟨_, ofPath_eq h, toPath?_coded (slash_notMem_of_cutHostPath h.cut) (head?_rooted rest) h.driveless⟩

section Below

variable {path : String} {rest : List Char} (hrooted : path.toList = '/' :: rest)
  (hhost : rest.head? ≠ some '/') (hdrive : beginsWithDrive path.toList = false)
include hrooted hhost hdrive

/-- A path below the root has no host. -/
theorem isWritten_below : IsWritten path [] ('/' :: rest) := by
  rw [hrooted] at hdrive
  refine ⟨?_, hdrive⟩
  rw [hrooted]
  unfold cutHostPath
  split
  · next heq =>
    obtain ⟨-, rfl⟩ := List.cons.inj heq
    exact absurd rfl hhost
  · rfl

/-- The URI of a path below the root names this path. -/
theorem toPath?_ofPath_below {uri : String} (huri : ofPath path = .ok uri) :
    toPath? uri = .ok (some path) := by
  obtain ⟨uri', huri', hread⟩ := toPath?_ofPath (isWritten_below hrooted hhost hdrive)
  obtain rfl := Except.ok.inj (huri.symm.trans huri')
  rw [hread, ← String.ofList_toList (s := path), hrooted]
  rfl

end Below

end LanguageServer.Uri
