import LanguageServer.Proofs.Document.Store
import LanguageServer.Workspace.Garbage

/-!
# The names of documents

Documents are handed to the engine by their source names, of which there are none if some
URI cannot be taken apart.  Several documents may have one name; then the last one counts.

An eviction forgets all documents of a name or none, since it goes by names.  So what is
left has the names that were reached, with the same texts.

## Main statements

* `find?_of_last` — of the documents of one name the last one counts.
* `nameDocuments_filter` — naming the documents of certain names.
* `mem_unreachable` — which documents are forgotten.
* `nameDocuments_evict` — the names and texts that an eviction leaves.
-/

namespace LanguageServer.Workspace

variable {uris uris' texts texts' : Table String String} {l : List Document}

/-! ## Naming documents -/

theorem nameDocuments_cons_iff {d : Document} :
    nameDocuments uris texts (d :: l) = (uris', .ok texts') ↔
      ∃ name, sourceNameFor d.uri = .ok name ∧
        nameDocuments (uris.insert name d.uri) (texts.insert name d.content) l =
          (uris', .ok texts') := by
  simp only [nameDocuments]
  cases sourceNameFor d.uri <;> simp

/-- Documents that can be named one by one can be named together. -/
theorem exists_nameDocuments (h : ∀ d ∈ l, ∃ name, sourceNameFor d.uri = .ok name)
    (uris texts : Table String String) :
    ∃ uris' texts', nameDocuments uris texts l = (uris', .ok texts') := by
  induction l generalizing uris texts with
  | nil => exact ⟨uris, texts, rfl⟩
  | cons d rest ih =>
    obtain ⟨name, hname⟩ := h d List.mem_cons_self
    obtain ⟨uris', texts', hrest⟩ := ih (fun d hd => h d (List.mem_cons_of_mem _ hd))
      (uris.insert name d.uri) (texts.insert name d.content)
    exact ⟨uris', texts', nameDocuments_cons_iff.2 ⟨name, hname, hrest⟩⟩

/-- Documents that can be named together can be named one by one. -/
theorem exists_name (h : nameDocuments uris texts l = (uris', .ok texts')) :
    ∀ d ∈ l, ∃ name, sourceNameFor d.uri = .ok name := by
  induction l generalizing uris texts with
  | nil => simp
  | cons d rest ih =>
    obtain ⟨name, hname, hrest⟩ := nameDocuments_cons_iff.1 h
    intro d' hd'
    rcases List.mem_cons.1 hd' with rfl | hd'
    · exact ⟨name, hname⟩
    · exact ih hrest d' hd'

/-- The names under which texts are handed to the engine. -/
theorem contains_texts_iff (h : nameDocuments uris texts l = (uris', .ok texts')) (n : String) :
    texts'.contains n = true ↔
      texts.contains n = true ∨ ∃ d ∈ l, sourceNameFor d.uri = .ok n := by
  induction l generalizing uris texts with
  | nil =>
    obtain ⟨-, htexts⟩ := Prod.mk.inj h
    obtain rfl := Except.ok.inj htexts
    simp
  | cons d rest ih =>
    obtain ⟨name, hname, hrest⟩ := nameDocuments_cons_iff.1 h
    have hinsert : (texts.insert name d.content).contains n = true ↔
        name = n ∨ texts.contains n = true := by
      simp only [Table.contains, Table.find?_insert]
      split <;> simp_all
    rw [ih hrest, hinsert]
    simp only [List.mem_cons, exists_eq_or_imp, hname, Except.ok.injEq]
    exact or_assoc.trans or_left_comm

/-- A name that no document has is left alone. -/
theorem find?_of_unnamed {n : String} (h : nameDocuments uris texts l = (uris', .ok texts'))
    (hn : ∀ d ∈ l, sourceNameFor d.uri ≠ .ok n) :
    uris'.find? n = uris.find? n ∧ texts'.find? n = texts.find? n := by
  induction l generalizing uris texts with
  | nil =>
    obtain ⟨rfl, htexts⟩ := Prod.mk.inj h
    obtain rfl := Except.ok.inj htexts
    exact ⟨rfl, rfl⟩
  | cons d rest ih =>
    obtain ⟨name, hname, hrest⟩ := nameDocuments_cons_iff.1 h
    have hne : name ≠ n := fun heq => hn d List.mem_cons_self (heq ▸ hname)
    obtain ⟨huris, htexts⟩ := ih hrest fun d hd => hn d (List.mem_cons_of_mem _ hd)
    rw [huris, htexts, Table.find?_insert, Table.find?_insert, if_neg hne, if_neg hne]
    exact ⟨rfl, rfl⟩

/-- A document after which none has its name gives the name its URI and its text. -/
theorem find?_of_last {front back : List Document} {d : Document} {n : String}
    (h : nameDocuments uris texts (front ++ d :: back) = (uris', .ok texts'))
    (hd : sourceNameFor d.uri = .ok n) (hlast : ∀ d' ∈ back, sourceNameFor d'.uri ≠ .ok n) :
    uris'.find? n = some d.uri ∧ texts'.find? n = some d.content := by
  induction front generalizing uris texts with
  | nil =>
    obtain ⟨name, hname, hrest⟩ := nameDocuments_cons_iff.1 h
    obtain rfl := Except.ok.inj (hd.symm.trans hname)
    obtain ⟨huris, htexts⟩ := find?_of_unnamed hrest hlast
    rw [huris, htexts, Table.find?_insert, Table.find?_insert, if_pos rfl, if_pos rfl]
    exact ⟨rfl, rfl⟩
  | cons d' rest ih =>
    obtain ⟨_, -, hrest⟩ := nameDocuments_cons_iff.1 h
    exact ih hrest

/-- Among documents one of which has a name there is a last one that does. -/
theorem exists_last {n : String} (h : ∃ d ∈ l, sourceNameFor d.uri = .ok n) :
    ∃ front d back, l = front ++ d :: back ∧ sourceNameFor d.uri = .ok n ∧
      ∀ d' ∈ back, sourceNameFor d'.uri ≠ .ok n := by
  induction l with
  | nil => simp at h
  | cons d rest ih =>
    by_cases hrest : ∃ d ∈ rest, sourceNameFor d.uri = .ok n
    · obtain ⟨front, last, back, rfl, hlast⟩ := ih hrest
      exact ⟨d :: front, last, back, rfl, hlast⟩
    · have hd : sourceNameFor d.uri = .ok n := by
        obtain ⟨d', hd', hname⟩ := h
        rcases List.mem_cons.1 hd' with rfl | hd'
        · exact hname
        · exact absurd ⟨d', hd', hname⟩ hrest
      exact ⟨[], d, rest, rfl, hd, fun d' hd' hname => hrest ⟨d', hd', hname⟩⟩

/-- Naming only the documents of certain names. -/
theorem nameDocuments_filter (h : nameDocuments uris texts l = (uris', .ok texts'))
    {p : String → Bool} {keep : Document → Bool}
    (hkeep : ∀ d ∈ l, ∀ n, sourceNameFor d.uri = .ok n → keep d = p n) :
    nameDocuments (uris.restrict p) (texts.restrict p) (l.filter keep) =
      (uris'.restrict p, .ok (texts'.restrict p)) := by
  induction l generalizing uris texts with
  | nil =>
    obtain ⟨rfl, htexts⟩ := Prod.mk.inj h
    obtain rfl := Except.ok.inj htexts
    rfl
  | cons d rest ih =>
    obtain ⟨name, hname, hrest⟩ := nameDocuments_cons_iff.1 h
    have hnext := ih hrest fun d hd => hkeep d (List.mem_cons_of_mem _ hd)
    rw [Table.restrict_insert, Table.restrict_insert] at hnext
    have hd := hkeep d List.mem_cons_self name hname
    cases hp : p name with
    | true =>
      rw [List.filter_cons_of_pos (hd.trans hp), nameDocuments_cons_iff]
      simp only [hp, if_true] at hnext
      exact ⟨name, hname, hnext⟩
    | false =>
      rw [List.filter_cons_of_neg (by simp [hd, hp])]
      simpa only [hp, Bool.false_eq_true, if_false] using hnext

/-! ## Documents that are not reached -/

variable {store : DocumentStore} {reached reached' garbage : List String}

theorem unreachable_cons_open {d : Document} (hopen : store.isOpen d.uri = true) :
    unreachable store reached (d :: l) = unreachable store reached l := by
  simp [unreachable, hopen]

theorem unreachable_cons_error {d : Document} {e : Uri.UriError}
    (hopen : store.isOpen d.uri = false) (hname : sourceNameFor d.uri = .error e) :
    unreachable store reached (d :: l) = .error e := by
  simp [unreachable, hopen, hname, bind, Except.bind]

theorem unreachable_cons_ok {d : Document} {name : String} (hopen : store.isOpen d.uri = false)
    (hname : sourceNameFor d.uri = .ok name) :
    unreachable store reached (d :: l) = (unreachable store reached l).map fun others =>
      if reached.contains name then others else d.uri :: others := by
  simp only [unreachable, hopen, hname, bind, Except.bind, Bool.false_eq_true, if_false]
  cases unreachable store reached l <;> rfl

/-- Only the names of the documents matter. -/
theorem unreachable_congr
    (h : ∀ d ∈ l, ∀ n, sourceNameFor d.uri = .ok n → reached.contains n = reached'.contains n) :
    unreachable store reached l = unreachable store reached' l := by
  induction l with
  | nil => rfl
  | cons d rest ih =>
    have hrest := ih fun d hd => h d (List.mem_cons_of_mem _ hd)
    cases hopen : store.isOpen d.uri with
    | true => rw [unreachable_cons_open hopen, unreachable_cons_open hopen, hrest]
    | false =>
      cases hname : sourceNameFor d.uri with
      | error e => rw [unreachable_cons_error hopen hname, unreachable_cons_error hopen hname]
      | ok name =>
        rw [unreachable_cons_ok hopen hname, unreachable_cons_ok hopen hname, hrest,
          h d List.mem_cons_self name hname]

/-- Whether a document cannot be named does not depend on what was reached. -/
theorem unreachable_eq_error {e : Uri.UriError} (h : unreachable store reached l = .error e) :
    unreachable store reached' l = .error e := by
  induction l with
  | nil => cases h
  | cons d rest ih =>
    cases hopen : store.isOpen d.uri with
    | true =>
      rw [unreachable_cons_open hopen] at h ⊢
      exact ih h
    | false =>
      cases hname : sourceNameFor d.uri with
      | error e' =>
        rw [unreachable_cons_error hopen hname] at h ⊢
        exact h
      | ok name =>
        rw [unreachable_cons_ok hopen hname] at h ⊢
        cases hrest : unreachable store reached rest with
        | error e' =>
          rw [hrest] at h
          rw [ih (hrest.trans (by simpa [Except.map] using h))]
          rfl
        | ok others => simp [hrest, Except.map] at h

/-- Exactly the closed documents are forgotten whose names are not reached. -/
theorem mem_unreachable (h : unreachable store reached l = .ok garbage) (uri : String) :
    uri ∈ garbage ↔ ∃ d ∈ l, d.uri = uri ∧ store.isOpen uri = false ∧
      ∃ n, sourceNameFor uri = .ok n ∧ reached.contains n = false := by
  induction l generalizing garbage with
  | nil =>
    obtain rfl := Except.ok.inj h
    simp
  | cons d rest ih =>
    simp only [List.mem_cons, exists_eq_or_imp]
    cases hopen : store.isOpen d.uri with
    | true =>
      rw [unreachable_cons_open hopen] at h
      rw [ih h]
      refine ⟨.inr, fun h => h.resolve_left ?_⟩
      rintro ⟨rfl, hclosed, -⟩
      simp [hopen] at hclosed
    | false =>
      cases hname : sourceNameFor d.uri with
      | error e => simp [unreachable_cons_error hopen hname] at h
      | ok name =>
        rw [unreachable_cons_ok hopen hname] at h
        cases hrest : unreachable store reached rest with
        | error e => simp [hrest, Except.map] at h
        | ok others =>
          simp only [hrest, Except.map, Except.ok.injEq] at h
          subst h
          cases hreached : reached.contains name with
          | true =>
            rw [if_pos rfl, ih hrest]
            refine ⟨.inr, fun h => h.resolve_left ?_⟩
            rintro ⟨rfl, -, n, hn, hnot⟩
            obtain rfl := Except.ok.inj (hname.symm.trans hn)
            rw [hreached] at hnot
            cases hnot
          | false =>
            rw [if_neg (by simp), List.mem_cons, ih hrest]
            refine or_congr_left ⟨?_, fun h => h.1.symm⟩
            rintro rfl
            exact ⟨rfl, hopen, name, hname, hreached⟩

/-- What is forgotten is found only if the closed documents can be named. -/
theorem exists_name_of_unreachable (h : unreachable store reached l = .ok garbage) :
    ∀ d ∈ l, store.isOpen d.uri = false → ∃ n, sourceNameFor d.uri = .ok n := by
  intro d hd hopen
  induction l generalizing garbage with
  | nil => cases hd
  | cons d' rest ih =>
    cases hopen' : store.isOpen d'.uri with
    | true =>
      rw [unreachable_cons_open hopen'] at h
      rcases List.mem_cons.1 hd with rfl | hd
      · simp [hopen] at hopen'
      · exact ih h hd
    | false =>
      cases hname : sourceNameFor d'.uri with
      | error e => simp [unreachable_cons_error hopen' hname] at h
      | ok name =>
        rw [unreachable_cons_ok hopen' hname] at h
        cases hrest : unreachable store reached rest with
        | error e => simp [hrest, Except.map] at h
        | ok others =>
          rcases List.mem_cons.1 hd with rfl | hd
          · exact ⟨name, hname⟩
          · exact ih hrest hd

/-- The names of some documents. -/
theorem mem_mapM_sourceNameFor {l names : List String} (h : l.mapM sourceNameFor = .ok names)
    (n : String) : n ∈ names ↔ ∃ uri ∈ l, sourceNameFor uri = .ok n := by
  induction l generalizing names with
  | nil =>
    obtain rfl := Except.ok.inj h
    simp
  | cons uri rest ih =>
    rw [List.mapM_cons] at h
    cases hname : sourceNameFor uri with
    | error e => simp [hname, bind, Except.bind] at h
    | ok name =>
      cases hrest : rest.mapM sourceNameFor with
      | error e => simp [hname, hrest, bind, Except.bind] at h
      | ok others =>
        simp only [hname, hrest, bind, Except.bind, pure, Except.pure, Except.ok.injEq] at h
        subst h
        simp [ih hrest, hname, eq_comm]

theorem exists_name_of_mapM {l names : List String} (h : l.mapM sourceNameFor = .ok names) :
    ∀ uri ∈ l, ∃ n ∈ names, sourceNameFor uri = .ok n := by
  intro uri huri
  induction l generalizing names with
  | nil => cases huri
  | cons uri' rest ih =>
    rw [List.mapM_cons] at h
    cases hname : sourceNameFor uri' with
    | error e => simp [hname, bind, Except.bind] at h
    | ok name =>
      cases hrest : rest.mapM sourceNameFor with
      | error e => simp [hname, hrest, bind, Except.bind] at h
      | ok others =>
        simp only [hname, hrest, bind, Except.bind, pure, Except.pure, Except.ok.injEq] at h
        subst h
        rcases List.mem_cons.1 huri with rfl | huri
        · exact ⟨name, List.mem_cons_self, hname⟩
        · obtain ⟨n, hn, huri⟩ := ih hrest huri
          exact ⟨n, List.mem_cons_of_mem _ hn, huri⟩

/-! ## What an eviction leaves -/

theorem toList_evict {s : DocumentStore} (h : s.IsFormed) (garbage : List String) :
    (s.evict garbage).1.toList =
      s.toList.filter fun d => !garbage.contains d.uri || s.isOpen d.uri := by
  unfold DocumentStore.toList Table.values
  rw [DocumentStore.documents_evict, Table.restrict, List.filter_map]
  congr 1
  refine List.filter_congr fun e he => ?_
  simp only [Function.comp_apply, h.uri e he]

/-- The names that an eviction leaves are those that were reached, with the same texts. -/
theorem nameDocuments_evict {s : DocumentStore} (hformed : s.IsFormed)
    (hnames : nameDocuments .empty .empty s.toList = (uris, .ok texts))
    (hopen : ∀ uri ∈ s.openUris, ∀ n, sourceNameFor uri = .ok n → reached.contains n = true)
    (hgarbage : unreachable s reached s.toList = .ok garbage) :
    nameDocuments .empty .empty (s.evict garbage).1.toList =
      (uris.restrict reached.contains, .ok (texts.restrict reached.contains)) := by
  -- A document stays exactly if its name was reached.
  have hkeep : ∀ d ∈ s.toList, ∀ n, sourceNameFor d.uri = .ok n →
      (!garbage.contains d.uri || s.isOpen d.uri) = reached.contains n := by
    intro d hd n hn
    cases hisOpen : s.isOpen d.uri with
    | true =>
      have hmem : d.uri ∈ s.openUris := by simpa [DocumentStore.isOpen] using hisOpen
      rw [Bool.or_true, hopen d.uri hmem n hn]
    | false =>
      rw [Bool.or_false, Bool.not_eq_eq_eq_not]
      have hgone : garbage.contains d.uri = true ↔ reached.contains n = false := by
        rw [List.contains_iff_mem, mem_unreachable hgarbage]
        constructor
        · rintro ⟨-, -, -, -, m, hm, hnot⟩
          obtain rfl := Except.ok.inj (hn.symm.trans hm)
          exact hnot
        · exact fun hnot => ⟨d, hd, rfl, hisOpen, n, hn, hnot⟩
      cases hreached : reached.contains n with
      | true =>
        refine Bool.eq_false_iff.2 fun hmem => ?_
        rw [hgone.1 hmem] at hreached
        cases hreached
      | false => exact hgone.2 hreached
  rw [toList_evict hformed]
  exact nameDocuments_filter hnames hkeep

end LanguageServer.Workspace
