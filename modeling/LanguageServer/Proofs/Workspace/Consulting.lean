import LanguageServer.Proofs.Workspace.View

/-!
# What queries look up

The answer to a query is a function of the view of the workspace.  It looks up the indexes
of a few sources only: that of the document it is asked in, that of the declaration found
there, or those in which it occurs.  So the answer is the same in all views that agree on
these sources, and once it was given their indexes are kept.

## Main definitions

* `Workspace.KeepsIndexOf` — looking the source up again takes nothing but the kept indexes.
* `Consults` — an action looks up only the listed sources, and keeps their indexes.
* `View.definition`, `View.references`, `View.highlights` — what queries become.
* `View.definitionSources`, `View.referenceSources`, `View.highlightSources` — the sources that
  they look up.

## Main statements

* `consults_definition`, `consults_references`, `consults_highlights` — the actions yield these
  functions and look up these sources.
-/

namespace LanguageServer

open Workspace

/-! ## Kept indexes -/

namespace Workspace

/-- The source has an index that is kept, or it has none at all. -/
def KeepsIndexOf (ws : Workspace) (name : String) : Prop :=
  ws.indexes.find? name = ws.lineIndex? name

theorem keepsIndexOf_remember (ws : Workspace) (name : String) :
    (ws.remember name).KeepsIndexOf name := by
  unfold KeepsIndexOf
  rw [lineIndex?_remember]
  unfold remember
  split
  · next index h => simp [h]
  · next h =>
    cases hfind : ws.indexes.find? name with
    | none => exact h.symm
    | some index => simp [lineIndex?, hfind] at h

theorem KeepsIndexOf.remember {ws : Workspace} {name : String} (h : ws.KeepsIndexOf name)
    (other : String) : (ws.remember other).KeepsIndexOf name := by
  by_cases heq : other = name
  · exact heq ▸ keepsIndexOf_remember ws other
  · unfold KeepsIndexOf
    rw [lineIndex?_remember]
    unfold Workspace.remember
    split
    · simpa [heq] using show ws.indexes.find? name = ws.lineIndex? name from h
    · exact h

end Workspace

/-! ## Actions that look up some sources -/

/-- The action yields a function of the view that depends on the listed sources only, and if it
succeeds the indexes of these are kept.  Indexes that are kept already stay. -/
structure Consults {α : Type} (a : Action Workspace α) (f : View → Except Fault α)
    (names : View → List String) : Prop where
  reads : Reads a f
  only : ∀ {v v' : View}, v'.uri = v.uri → (∀ n ∈ names v, v'.index n = v.index n) → f v' = f v
  grows : ∀ {ws : Workspace} {n : String}, ws.KeepsIndexOf n → (a.run ws).state.KeepsIndexOf n
  keeps : ∀ {ws : Workspace} {x : α}, f ws.view = .ok x →
    ∀ n ∈ names ws.view, (a.run ws).state.KeepsIndexOf n

/-- The sources that are looked up with a result, if there is one. -/
def sourcesAfter {α : Type} (r : Except Fault α) (names : α → List String) : List String :=
  match r with
  | .ok x => names x
  | .error _ => []

namespace Consults

variable {α β : Type}

theorem pure (x : α) : Consults (Pure.pure x) (fun _ => .ok x) fun _ => [] where
  reads := .pure x
  only _ _ := rfl
  grows h := h
  keeps _ := by simp

theorem bind {a : Action Workspace α} {f : View → Except Fault α} {names : View → List String}
    {g : α → Action Workspace β} {h : α → View → Except Fault β} {m : α → View → List String}
    (ha : Consults a f names) (hg : ∀ x, Consults (g x) (h x) (m x)) :
    Consults (a >>= g) (fun v => f v >>= fun x => h x v)
      fun v => names v ++ sourcesAfter (f v) fun x => m x v where
  reads := ha.reads.bind fun x => (hg x).reads
  only {v v'} huri hindex := by
    have hf := ha.only huri fun n hn => hindex n (List.mem_append_left _ hn)
    simp only [hf]
    cases hx : f v with
    | error e => rfl
    | ok x =>
      refine (hg x).only huri fun n hn => hindex n (List.mem_append_right _ ?_)
      simpa only [sourcesAfter, hx] using hn
  grows {ws n} hn := by
    have hgrown := ha.grows hn
    rw [Action.run_bind]
    cases hrun : a.run ws with
    | mk said result ws' =>
      rw [hrun] at hgrown
      cases result with
      | error e => exact hgrown
      | ok x => exact (hg x).grows hgrown
  keeps {ws y} hy n hn := by
    obtain ⟨ws', hrun, hrecall⟩ := ha.reads ws
    cases hx : f ws.view with
    | error e => simp only [hx] at hy; cases hy
    | ok x =>
      simp only [hx, sourcesAfter, List.mem_append] at hy hn hrun
      have hkept := ha.keeps hx n
      rw [hrun] at hkept
      rw [Action.run_bind_ok hrun]
      rcases hn with hn | hn
      · exact (hg x).grows (hkept hn)
      · rw [← hrecall.view_eq] at hn hy
        exact (hg x).keeps hy n hn

/-- The function may be written otherwise, and so may the list: it may also be longer for a view in
which the action fails. -/
theorem congr {a : Action Workspace α} {f f' : View → Except Fault α}
    {names names' : View → List String} (h : Consults a f names) (hf : ∀ v, f v = f' v)
    (hsub : ∀ v, ∀ n ∈ names v, n ∈ names' v)
    (hsup : ∀ v x, f v = .ok x → ∀ n ∈ names' v, n ∈ names v) : Consults a f' names' := by
  obtain rfl : f = f' := funext hf
  exact
    { reads := h.reads
      only := fun huri hindex => h.only huri fun n hn => hindex n (hsub _ n hn)
      grows := h.grows
      keeps := fun hx n hn => h.keeps hx n (hsup _ _ hx n hn) }

/-- What is looked up next may be listed regardless of the result, if it does not depend on it. -/
theorem andThen {a : Action Workspace α} {f : View → Except Fault α} {names : View → List String}
    {g : α → Action Workspace β} {h : α → View → Except Fault β} {m : View → List String}
    {f' : View → Except Fault β} (ha : Consults a f names) (hg : ∀ x, Consults (g x) (h x) m)
    (hf : ∀ v, (f v >>= fun x => h x v) = f' v) :
    Consults (a >>= g) f' fun v => names v ++ m v := by
  refine (ha.bind hg).congr hf (fun v n hn => ?_) fun v y hy n hn => ?_
  · cases hx : f v <;> simp only [hx, sourcesAfter, List.append_nil] at hn
    · exact List.mem_append_left _ hn
    · exact hn
  · cases hx : f v with
    | error e => simp only [hx] at hy; cases hy
    | ok x => simpa only [sourcesAfter] using hn

/-- What follows an action that always yields something of the view. -/
theorem followed {a : Action Workspace α} {y : View → α} {names : View → List String}
    {g : α → Action Workspace β} {h : α → View → Except Fault β} {m : α → View → List String}
    (ha : Consults a (fun v => .ok (y v)) names) (hg : ∀ x, Consults (g x) (h x) (m x)) :
    Consults (a >>= g) (fun v => h (y v) v) fun v => names v ++ m (y v) v := ha.bind hg

/-- An action whose result is passed on under a function. -/
theorem map {a : Action Workspace α} {f : View → Except Fault α} {names : View → List String}
    (ha : Consults a f names) (g : α → β) {f' : View → Except Fault β}
    (hf : ∀ v, (f v).map g = f' v) : Consults (a >>= fun x => Pure.pure (g x)) f' names := by
  have hpassed (v : View) : (f v >>= fun x => .ok (g x)) = f' v := by
    rw [← hf]
    cases f v <;> rfl
  simpa using ha.andThen (fun x => .pure (g x)) hpassed

end Consults

/-! ## Translating places -/

theorem consults_indexOf (name : String) :
    Consults (indexOf name) (fun v => .ok (v.index name)) fun _ => [name] where
  reads := reads_indexOf name
  only _ hindex := by simp [hindex name (by simp)]
  grows h := h.remember name
  keeps {ws _} _ n hn := by
    obtain rfl : n = name := by simpa using hn
    exact keepsIndexOf_remember ws n

theorem consults_uriOf (name : String) :
    Consults (uriOf name) (fun v => v.uri name) fun _ => [] where
  reads := reads_uriOf name
  only huri _ := by rw [huri]
  grows {ws n} h := by
    have hrun : (uriOf name).run ws = (Action.ofExcept Fault.uri (ws.uriFor name)).run ws := rfl
    rw [hrun]
    cases ws.uriFor name <;> exact h
  keeps _ := by simp

theorem consults_toRange (l : SourceLocation) :
    Consults (toRange l) (fun v => .ok (v.range? l)) fun _ => [l.source] :=
  (consults_indexOf l.source).map _ fun _ => rfl

theorem consults_toLocation (l : SourceLocation) :
    Consults (toLocation l) (fun v => v.location? l) fun _ => [l.source] := by
  refine (consults_toRange l).andThen (m := fun _ => []) (h := fun range v =>
    range.elim (.ok none) fun range => (v.uri l.source).map fun uri => some ⟨uri, range⟩)
    (fun range => ?_) fun v => ?_
  · cases range with
    | none => exact .pure none
    | some range => exact (consults_uriOf l.source).map _ fun _ => rfl
  · show (v.range? l).elim _ _ = v.location? l
    unfold View.location?
    cases v.range? l <;> rfl

/-! ## Queries -/

namespace View

/-- The offset of a position in a source, if it has one. -/
def offset? (v : View) (source : String) (p : Position) : Option Nat :=
  ((v.index source).map (·.offsetAt p)).bind Except.toOption

/-- The smallest node at a position. -/
def nodeAt? (v : View) (program : Program) (source : String) (p : Position) : Option Node := do
  let u ← program.units.find? source
  innermost u.root (← v.offset? source p)

/-- The declaration at a position. -/
def declarationAt? (v : View) (program : Program) (source : String) (p : Position) :
    Option Declaration :=
  (v.nodeAt? program source p).bind program.declarationOf?

/-- Where the symbol at a position is declared. -/
def definition (v : View) (program : Program) (source : String) (p : Position) :
    Except Fault (List Location) :=
  match v.declarationAt? program source p with
  | none => .ok []
  | some d => (v.location? d.location).map Option.toList

/-- The highlights of occurrences whose sources are known. -/
def highlightAll (v : View) (l : List Occurrence) : List Highlight :=
  l.filterMap fun o => (v.range? o.location).map fun range => ⟨range, o.access⟩

/-- The places in the same source at which the symbol at a position occurs. -/
def highlights (v : View) (program : Program) (source : String) (p : Position) : List Highlight :=
  match v.declarationAt? program source p, program.units.find? source with
  | some d, some u => v.highlightAll (occurrences d u)
  | _, _ => []

/-- The highlights of occurrences, with the URI of the source in which they lie. -/
def locate (v : View) (source : String) : List Occurrence → Except Fault (List (String × Highlight))
  | [] => .ok []
  | o :: rest =>
    match v.range? o.location with
    | none => v.locate source rest
    | some range => do
      let uri ← v.uri source
      let others ← v.locate source rest
      return (uri, ⟨range, o.access⟩) :: others

/-- The occurrences of a declaration in several units, unit by unit. -/
def locateAll (v : View) (d : Declaration) :
    List (String × CompiledUnit) → Except Fault (List (String × Highlight))
  | [] => .ok []
  | (name, u) :: rest => do
    let here ← v.locate name (occurrences d u)
    let others ← v.locateAll d rest
    return here ++ others

/-- The places at which the symbol at a position occurs. -/
def references (v : View) (program : Program) (source : String) (p : Position) :
    Except Fault (List Location) :=
  match v.declarationAt? program source p with
  | none => .ok []
  | some d =>
    (v.locateAll d (Navigation.unitsInOrder program)).map fun l => l.map fun r => ⟨r.1, r.2.range⟩

/-- The sources looked up for what is declared at a position. -/
def cursorSources (program : Program) (source : String) : List String :=
  if program.units.contains source then [source] else []

/-- The sources looked up for where the symbol at a position is declared. -/
def definitionSources (v : View) (program : Program) (source : String) (p : Position) :
    List String :=
  cursorSources program source ++
    ((v.declarationAt? program source p).map (·.location.source)).toList

/-- The sources looked up for where the symbol at a position occurs in its own source. -/
def highlightSources (v : View) (program : Program) (source : String) (p : Position) :
    List String :=
  cursorSources program source ++
    match v.declarationAt? program source p, program.units.find? source with
    | some d, some u => (occurrences d u).map (·.location.source)
    | _, _ => []

/-- The sources looked up for where the symbol at a position occurs in all units. -/
def referenceSources (v : View) (program : Program) (source : String) (p : Position) :
    List String :=
  cursorSources program source ++
    match v.declarationAt? program source p with
    | some d => (Navigation.unitsInOrder program).flatMap fun e =>
        (occurrences d e.2).map (·.location.source)
    | none => []

end View

theorem consults_offset? (source : String) (p : Position) :
    Consults (Navigation.offset? source p) (fun v => .ok (v.offset? source p)) fun _ => [source] :=
  (consults_indexOf source).map _ fun _ => rfl

theorem consults_nodeAt (program : Program) (source : String) (p : Position) :
    Consults (Navigation.nodeAt program source p) (fun v => .ok (v.nodeAt? program source p))
      fun _ => View.cursorSources program source := by
  unfold Navigation.nodeAt View.nodeAt? View.cursorSources Table.contains
  cases program.units.find? source with
  | none => exact .pure none
  | some u => exact (consults_offset? source p).map _ fun _ => rfl

theorem reads_nodeAt (program : Program) (source : String) (p : Position) :
    Reads (Navigation.nodeAt program source p) fun v => .ok (v.nodeAt? program source p) :=
  (consults_nodeAt program source p).reads

theorem consults_declarationAt (program : Program) (source : String) (p : Position) :
    Consults (Navigation.declarationAt program source p)
      (fun v => .ok (v.declarationAt? program source p))
      fun _ => View.cursorSources program source :=
  (consults_nodeAt program source p).map _ fun _ => rfl

theorem reads_declarationAt (program : Program) (source : String) (p : Position) :
    Reads (Navigation.declarationAt program source p)
      fun v => .ok (v.declarationAt? program source p) :=
  (consults_declarationAt program source p).reads

theorem consults_definition (program : Program) (source : String) (p : Position) :
    Consults (Navigation.definition program source p) (fun v => v.definition program source p)
      fun v => v.definitionSources program source p := by
  refine (consults_declarationAt program source p).followed (h := fun d v =>
    match d with
    | none => .ok []
    | some d => (v.location? d.location).map Option.toList)
    (m := fun d _ => (d.map (·.location.source)).toList) fun d => ?_
  cases d with
  | none => exact .pure []
  | some d => exact (consults_toLocation d.location).map _ fun _ => rfl

theorem reads_definition (program : Program) (source : String) (p : Position) :
    Reads (Navigation.definition program source p) fun v => v.definition program source p :=
  (consults_definition program source p).reads

theorem consults_highlightOf (o : Occurrence) :
    Consults (Navigation.highlightOf o)
      (fun v => .ok ((v.range? o.location).map fun range => ⟨range, o.access⟩))
      fun _ => [o.location.source] :=
  (consults_toRange o.location).map _ fun _ => rfl

theorem consults_highlightAll (l : List Occurrence) :
    Consults (Navigation.highlightAll l) (fun v => .ok (v.highlightAll l))
      fun _ => l.map (·.location.source) := by
  induction l with
  | nil => exact .pure []
  | cons o rest ih =>
    refine (consults_highlightOf o).andThen (fun h => ih.map (h.toList ++ ·) fun _ => rfl)
      fun v => ?_
    cases hrange : v.range? o.location <;>
      simp only [View.highlightAll, List.filterMap_cons, hrange] <;> rfl

theorem reads_highlightAll (l : List Occurrence) :
    Reads (Navigation.highlightAll l) fun v => .ok (v.highlightAll l) :=
  (consults_highlightAll l).reads

theorem consults_highlights (program : Program) (source : String) (p : Position) :
    Consults (Navigation.highlights program source p)
      (fun v => .ok (v.highlights program source p))
      fun v => v.highlightSources program source p := by
  refine ((consults_declarationAt program source p).followed (h := fun d v =>
    match d, program.units.find? source with
    | some d, some u => .ok (v.highlightAll (occurrences d u))
    | _, _ => .ok [])
    (m := fun d _ => match d, program.units.find? source with
    | some d, some u => (occurrences d u).map (·.location.source)
    | _, _ => []) fun d => ?_).congr (fun v => ?_) (fun _ _ hn => hn) fun _ _ _ _ hn => hn
  · cases d with
    | none => exact .pure []
    | some d =>
      cases program.units.find? source with
      | none => exact .pure []
      | some u => exact consults_highlightAll _
  · simp only [View.highlights]
    cases v.declarationAt? program source p <;> cases program.units.find? source <;> rfl

theorem reads_highlights (program : Program) (source : String) (p : Position) :
    Reads (Navigation.highlights program source p)
      fun v => .ok (v.highlights program source p) :=
  (consults_highlights program source p).reads

theorem consults_locate (source : String) (l : List Occurrence) :
    Consults (Navigation.locate source l) (fun v => v.locate source l)
      fun _ => l.map (·.location.source) := by
  induction l with
  | nil => exact .pure []
  | cons o rest ih =>
    refine (consults_highlightOf o).andThen (m := fun _ => rest.map (·.location.source))
      (h := fun h v => h.elim (v.locate source rest) fun h => do
        let uri ← v.uri source
        let others ← v.locate source rest
        return (uri, h) :: others) (fun h => ?_) fun v => ?_
    · cases h with
      | none => exact ih
      | some h =>
        exact (consults_uriOf source).andThen (fun uri => ih.map ((uri, h) :: ·) fun _ => rfl)
          fun _ => rfl
    · cases hrange : v.range? o.location <;> simp only [View.locate, hrange] <;> rfl

theorem consults_locateAll (d : Declaration) (units : List (String × CompiledUnit)) :
    Consults (Navigation.locateAll d units) (fun v => v.locateAll d units)
      fun _ => units.flatMap fun e => (occurrences d e.2).map (·.location.source) := by
  induction units with
  | nil => exact .pure []
  | cons entry rest ih =>
    exact (consults_locate entry.1 (occurrences d entry.2)).andThen
      (fun here => ih.map (here ++ ·) fun _ => rfl) fun _ => rfl

theorem reads_locateAll (d : Declaration) (units : List (String × CompiledUnit)) :
    Reads (Navigation.locateAll d units) fun v => v.locateAll d units :=
  (consults_locateAll d units).reads

theorem consults_references (program : Program) (source : String) (p : Position) :
    Consults (Navigation.references program source p) (fun v => v.references program source p)
      fun v => v.referenceSources program source p := by
  refine (((consults_declarationAt program source p).followed (h := fun d v =>
    match d with
    | none => .ok []
    | some d => v.locateAll d (Navigation.unitsInOrder program))
    (m := fun d _ => match d with
    | some d => (Navigation.unitsInOrder program).flatMap fun e =>
        (occurrences d e.2).map (·.location.source)
    | none => []) fun d => ?_).map (fun l => l.map fun r => Location.mk r.1 r.2.range)
      fun _ => rfl).congr (fun v => ?_) (fun _ _ hn => hn) fun _ _ _ _ hn => hn
  · cases d with
    | none => exact .pure []
    | some d => exact consults_locateAll d _
  · simp only [View.references]
    cases v.declarationAt? program source p <;> rfl

theorem reads_references (program : Program) (source : String) (p : Position) :
    Reads (Navigation.references program source p) fun v => v.references program source p :=
  (consults_references program source p).reads

end LanguageServer
