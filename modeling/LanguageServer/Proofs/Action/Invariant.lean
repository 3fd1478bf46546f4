import LanguageServer.Proofs.Action.Basic

/-!
# Invariants of actions

An action can stop at its end or at any entry that cannot be delivered, so a property of
the state has to hold at all of these places.  The properties here also speak about what
has been delivered so far, because what the outside was told and what the state
remembers of it have to agree.

## Main definitions

* `Action.Maintains` — an action maintains a property of the history and the state.
* `Action.Leads`, `Action.Steady` — what holds at certain stops.
* `Action.Within` — an action moves the state along a relation and says only certain things.
* `Recipient.recording` — a recipient that also keeps what it accepted.

## Main statements

* `Action.Maintains.bind`, `Action.Within.bind` — both are kept by sequencing.
* `Run.deliver_maintains` — what an action maintains holds after any delivery of it.
-/

namespace LanguageServer

namespace Action

variable {σ α β : Type}

/-! ## Properties of the history and the state -/

/-- Each place at which delivery can stop has the property, given what was delivered before it. -/
def HoldsAtStops (I : List Effect → σ → Prop) : List Effect → List (Effect × σ) → Prop
  | _, [] => True
  | history, (e, s) :: rest => I history s ∧ HoldsAtStops I (history ++ [e]) rest

theorem holdsAtStops_append {I : List Effect → σ → Prop} (history : List Effect)
    (l l' : List (Effect × σ)) :
    HoldsAtStops I history (l ++ l') ↔
      HoldsAtStops I history l ∧ HoldsAtStops I (history ++ l.map (·.1)) l' := by
  induction l generalizing history with
  | nil => simp [HoldsAtStops]
  | cons entry l ih => simp [HoldsAtStops, ih, and_assoc]

/-- A property of the history and the state that holds before an action holds at each place at
which the action can stop. -/
def Maintains (I : List Effect → σ → Prop) (a : Action σ α) : Prop :=
  ∀ history s, I history s →
    HoldsAtStops I history (a.run s).said ∧
      I (history ++ (a.run s).said.map (·.1)) (a.run s).state

namespace Maintains

variable {I : List Effect → σ → Prop}

theorem pure (x : α) : Maintains I (Pure.pure x : Action σ α) := by
  intro history s h
  simpa [HoldsAtStops] using h

theorem state : Maintains I (Action.state : Action σ σ) := by
  intro history s h
  simpa [HoldsAtStops] using h

theorem stop (e : Fault) : Maintains I (Action.stop e : Action σ α) := by
  intro history s h
  simpa [HoldsAtStops] using h

theorem ofExcept {ε : Type} (fault : ε → Fault) (r : Except ε α) :
    Maintains I (Action.ofExcept fault r : Action σ α) := by
  cases r with
  | ok x => exact pure x
  | error e => exact stop (fault e)

theorem update {f : σ → σ} (hf : ∀ history s, I history s → I history (f s)) :
    Maintains I (Action.update f) := by
  intro history s h
  simpa [HoldsAtStops] using hf history s h

theorem bind {a : Action σ α} {f : α → Action σ β} (ha : Maintains I a)
    (hf : ∀ x, Maintains I (f x)) : Maintains I (a >>= f) := by
  intro history s h
  obtain ⟨hs, hend⟩ := ha history s h
  rw [run_bind]
  cases hr : a.run s with
  | mk said result s' =>
    rw [hr] at hs hend
    cases result with
    | error e => exact ⟨hs, hend⟩
    | ok x =>
      obtain ⟨hs', hend'⟩ := hf x _ _ hend
      refine ⟨(holdsAtStops_append history _ _).2 ⟨hs, hs'⟩, ?_⟩
      simpa using hend'

theorem forAll {ι : Type} {f : ι → Action σ Unit} (hf : ∀ i, Maintains I (f i)) (l : List ι) :
    Maintains I (Action.forAll f l) := by
  induction l with
  | nil => exact pure ()
  | cons i rest ih => exact bind (hf i) fun _ => ih

end Maintains

/-! ## Bounds on what an action does -/

/-- The action moves the state along `R`, wherever it stops, and says only what satisfies `P`. -/
def Within (R : σ → σ → Prop) (P : Effect → Prop) (a : Action σ α) : Prop :=
  ∀ s, (∀ entry ∈ (a.run s).said, P entry.1 ∧ R s entry.2) ∧ R s (a.run s).state

namespace Within

variable {R : σ → σ → Prop} {P : Effect → Prop}

theorem pure (hrefl : ∀ s, R s s) (x : α) : Within R P (Pure.pure x : Action σ α) := by
  intro s
  simpa using hrefl s

theorem state (hrefl : ∀ s, R s s) : Within R P (Action.state : Action σ σ) := by
  intro s
  simpa using hrefl s

theorem stop (hrefl : ∀ s, R s s) (e : Fault) : Within R P (Action.stop e : Action σ α) := by
  intro s
  simpa using hrefl s

theorem ofExcept (hrefl : ∀ s, R s s) {ε : Type} (fault : ε → Fault) (r : Except ε α) :
    Within R P (Action.ofExcept fault r : Action σ α) := by
  cases r with
  | ok x => exact pure hrefl x
  | error e => exact stop hrefl (fault e)

theorem update {f : σ → σ} (hf : ∀ s, R s (f s)) : Within R P (Action.update f) := by
  intro s
  simpa using hf s

theorem say (hrefl : ∀ s, R s s) {e : Effect} (he : P e) :
    Within R P (Action.say e : Action σ Unit) := by
  intro s
  refine ⟨fun entry hentry => ?_, hrefl s⟩
  obtain rfl : entry = (e, s) := by simpa using hentry
  exact ⟨he, hrefl s⟩

theorem bind (htrans : ∀ s s' s'', R s s' → R s' s'' → R s s'') {a : Action σ α}
    {f : α → Action σ β} (ha : Within R P a) (hf : ∀ x, Within R P (f x)) :
    Within R P (a >>= f) := by
  intro s
  obtain ⟨hs, hend⟩ := ha s
  rw [run_bind]
  cases hr : a.run s with
  | mk said result s' =>
    rw [hr] at hs hend
    cases result with
    | error e => exact ⟨hs, hend⟩
    | ok x =>
      obtain ⟨hs', hend'⟩ := hf x s'
      refine ⟨fun entry hentry => ?_, htrans _ _ _ hend hend'⟩
      rcases List.mem_append.1 hentry with h | h
      · exact hs entry h
      · exact ⟨(hs' entry h).1, htrans _ _ _ hend (hs' entry h).2⟩

/-- A property that steps along `R` keep and that does not depend on what `P` admits is
maintained. -/
theorem maintains {I : List Effect → σ → Prop} {a : Action σ α} (h : Within R P a)
    (hstate : ∀ history s s', R s s' → I history s → I history s')
    (hsaid : ∀ history e s, P e → (I (history ++ [e]) s ↔ I history s)) : Maintains I a := by
  intro history s hI
  obtain ⟨hs, hend⟩ := h s
  -- What has been said by then changes nothing, so only the state at the stop counts.
  have hlist : ∀ (l : List (Effect × σ)), (∀ entry ∈ l, P entry.1 ∧ R s entry.2) →
      ∀ past, I past s → HoldsAtStops I past l ∧ I (past ++ l.map (·.1)) s := by
    intro l
    induction l with
    | nil => intro _ past hpast; simpa [HoldsAtStops] using hpast
    | cons entry rest ih =>
      intro hl past hpast
      obtain ⟨hP, hR⟩ := hl entry List.mem_cons_self
      have hnext : I (past ++ [entry.1]) s := (hsaid _ _ _ hP).2 hpast
      obtain ⟨h₁, h₂⟩ := ih (fun e he => hl e (List.mem_cons_of_mem _ he)) _ hnext
      exact ⟨⟨hstate _ _ _ hR hpast, h₁⟩, by simpa using h₂⟩
  obtain ⟨h₁, h₂⟩ := hlist _ hs history hI
  exact ⟨h₁, hstate _ _ _ hend h₂⟩

end Within

/-! ## Properties at certain stops -/

/-- From states with `I` the action comes to states with `J`, at its end and wherever what
satisfies `P` cannot be delivered. -/
def Leads (P : Effect → Prop) (I J : σ → Prop) (a : Action σ α) : Prop :=
  ∀ s, I s → (∀ entry ∈ (a.run s).said, P entry.1 → J entry.2) ∧ J (a.run s).state

/-- A property of the state is kept at the end, and wherever what satisfies `P` cannot be
delivered. -/
abbrev Steady (P : Effect → Prop) (I : σ → Prop) (a : Action σ α) : Prop := Leads P I I a

namespace Leads

variable {P : Effect → Prop} {I J K : σ → Prop}

theorem update {f : σ → σ} (hf : ∀ s, I s → J (f s)) : Leads P I J (Action.update f) := by
  intro s h
  simpa using hf s h

theorem andThen {a : Action σ α} {f : α → Action σ β} (ha : Leads P I J a)
    (hf : ∀ x, Leads P J K (f x)) (hJK : ∀ s, J s → K s) : Leads P I K (a >>= f) := by
  intro s h
  obtain ⟨hs, hend⟩ := ha s h
  rw [run_bind]
  cases hr : a.run s with
  | mk said result s' =>
    rw [hr] at hs hend
    cases result with
    | error e => exact ⟨fun entry hentry hP => hJK _ (hs entry hentry hP), hJK _ hend⟩
    | ok x =>
      obtain ⟨hs', hend'⟩ := hf x s' hend
      refine ⟨fun entry hentry hP => ?_, hend'⟩
      rcases List.mem_append.1 hentry with hmem | hmem
      · exact hJK _ (hs entry hmem hP)
      · exact hs' entry hmem hP

/-- What follows a look at the state may rely on what was seen. -/
theorem state_bind {f : σ → Action σ α} (hf : ∀ s, I s → Leads P (· = s) J (f s)) :
    Leads P I J (Action.state >>= f) := by
  intro s h
  rw [run_bind_ok (run_state s)]
  simpa using hf s h s rfl

/-- An action that says nothing that satisfies `P` leads where its end is. -/
theorem of_within {R : σ → σ → Prop} {Q : Effect → Prop} {a : Action σ α} (ha : Within R Q a)
    (hQ : ∀ e, Q e → ¬ P e) (hend : ∀ s, I s → J (a.run s).state) : Leads P I J a :=
  fun s h => ⟨fun entry hentry hP => absurd hP (hQ _ ((ha s).1 entry hentry).1), hend s h⟩

theorem weaken {a : Action σ α} {I' : σ → Prop} (h : Leads P I J a) (hI : ∀ s, I' s → I s) :
    Leads P I' J a := fun s hs => h s (hI s hs)

theorem pure (x : α) : Steady P I (Pure.pure x : Action σ α) := by
  intro s h
  simpa using h

theorem state : Steady P I (Action.state : Action σ σ) := by
  intro s h
  simpa using h

theorem stop (e : Fault) : Steady P I (Action.stop e : Action σ α) := by
  intro s h
  simpa using h

theorem ofExcept {ε : Type} (fault : ε → Fault) (r : Except ε α) :
    Steady P I (Action.ofExcept fault r : Action σ α) := by
  cases r with
  | ok x => exact pure x
  | error e => exact stop (fault e)

/-- What follows a result that is taken over may rely on it. -/
theorem ofExcept_bind {ε : Type} {fault : ε → Fault} {r : Except ε α} {f : α → Action σ β}
    (hf : ∀ x, r = .ok x → Leads P I J (f x)) (hIJ : ∀ s, I s → J s) :
    Leads P I J (Action.ofExcept fault r >>= f) := by
  cases r with
  | ok x => exact hf x rfl
  | error e =>
    intro s h
    have hstop : (Action.ofExcept fault (.error e) : Action σ α).run s = ⟨[], .error (fault e), s⟩ :=
      rfl
    rw [run_bind_error hstop]
    simpa using hIJ s h

theorem say (e : Effect) : Steady P I (Action.say e : Action σ Unit) := by
  intro s h
  refine ⟨fun entry hentry _ => ?_, h⟩
  obtain rfl : entry = (e, s) := by simpa using hentry
  exact h

theorem bind {a : Action σ α} {f : α → Action σ β} (ha : Steady P I a)
    (hf : ∀ x, Steady P I (f x)) : Steady P I (a >>= f) := andThen ha hf fun _ h => h

theorem forAll {ι : Type} {f : ι → Action σ Unit} (hf : ∀ i, Steady P I (f i)) (l : List ι) :
    Steady P I (Action.forAll f l) := by
  induction l with
  | nil => exact pure ()
  | cons i rest ih => exact bind (hf i) fun _ => ih

end Leads

end Action

/-! ## Delivery -/

/-- A recipient that also keeps what it accepted, in order. -/
def Recipient.recording {κ : Type} (recipient : Recipient κ) : Recipient (κ × List Effect) :=
  fun e (k, heard) =>
    match recipient e k with
    | .ok () k => .ok () (k, heard ++ [e])
    | .error fault k => .error fault (k, heard)

/-- Delivery stops at an entry with a property, or delivers all. -/
theorem deliverAll_recording {σ κ : Type} (recipient : Recipient κ)
    {I : List Effect → σ → Prop} (l : List (Effect × σ)) (k : κ) (heard : List Effect)
    (h : Action.HoldsAtStops I heard l) :
    match deliverAll recipient.recording (k, heard) l with
    | (end_, none) => end_.2 = heard ++ l.map (·.1)
    | (end_, some (_, s)) => I end_.2 s := by
  induction l generalizing k heard with
  | nil => simp [deliverAll]
  | cons entry rest ih =>
    obtain ⟨e, s⟩ := entry
    obtain ⟨hs, hrest⟩ := h
    cases hk : recipient e k with
    | error fault k' => simpa [deliverAll, Recipient.recording, hk] using hs
    | ok u k' =>
      cases u
      have hnext := ih k' (heard ++ [e]) hrest
      simpa [deliverAll, Recipient.recording, hk] using hnext

/-- A delivery ends as the run does, or where the recipient refuses an entry. -/
theorem Run.deliver_cases {σ κ α : Type} (recipient : Recipient κ) (r : Run σ α) (k : κ) :
    (r.deliver recipient k).2 = (r.result, r.state) ∨
      ∃ entry ∈ r.said, ∃ k₁ k₂ f, recipient entry.1 k₁ = .error f k₂ ∧
        (r.deliver recipient k).2 = (.error f, entry.2) := by
  have hall : ∀ (l : List (Effect × σ)) (k : κ), (deliverAll recipient k l).2 = none ∨
      ∃ entry ∈ l, ∃ k₁ k₂ f, recipient entry.1 k₁ = .error f k₂ ∧
        (deliverAll recipient k l).2 = some (f, entry.2) := by
    intro l
    induction l with
    | nil => exact fun _ => .inl rfl
    | cons entry rest ih =>
      intro k
      cases hk : recipient entry.1 k with
      | error f k' =>
        exact .inr ⟨entry, List.mem_cons_self, k, k', f, hk, by simp [deliverAll, hk]⟩
      | ok u k' =>
        cases u
        rcases ih k' with h | ⟨entry', hmem, h⟩
        · exact .inl (by simpa [deliverAll, hk] using h)
        · exact .inr ⟨entry', List.mem_cons_of_mem _ hmem, by simpa [deliverAll, hk] using h⟩
  unfold Run.deliver
  rcases hall r.said k with h | ⟨entry, hmem, k₁, k₂, f, hrefuse, h⟩
  · left
    cases hd : deliverAll recipient k r.said with
    | mk end_ failure =>
      rw [hd] at h
      obtain rfl : failure = none := h
      rfl
  · right
    refine ⟨entry, hmem, k₁, k₂, f, hrefuse, ?_⟩
    cases hd : deliverAll recipient k r.said with
    | mk end_ failure =>
      rw [hd] at h
      obtain rfl : failure = some (f, entry.2) := h
      rfl

/-- What an action maintains holds after any delivery of it. -/
theorem Run.deliver_maintains {σ κ α : Type} (recipient : Recipient κ)
    {I : List Effect → σ → Prop} {a : Action σ α} (ha : a.Maintains I) (k : κ)
    (heard : List Effect) (s : σ) (h : I heard s) :
    I ((a.run s).deliver recipient.recording (k, heard)).1.2
      ((a.run s).deliver recipient.recording (k, heard)).2.2 := by
  obtain ⟨hstops, hend⟩ := ha heard s h
  have hall := deliverAll_recording recipient (a.run s).said k heard hstops
  unfold Run.deliver
  cases hd : deliverAll recipient.recording (k, heard) (a.run s).said with
  | mk end_ failure =>
    rw [hd] at hall
    cases failure with
    | some stop => exact hall
    | none => simpa [show end_.2 = _ from hall] using hend

/-- If no delivery fails, all that an action says is heard, and its own result and state count. -/
theorem Run.deliver_ok {σ κ α : Type} (recipient : Recipient κ) (r : Run σ α) (k : κ)
    (heard : List Effect) {x : α}
    (h : (r.deliver recipient.recording (k, heard)).2.1 = .ok x) :
    (r.deliver recipient.recording (k, heard)).1.2 = heard ++ r.said.map (·.1) ∧
      r.result = .ok x ∧ (r.deliver recipient.recording (k, heard)).2.2 = r.state := by
  have htrue : ∀ (l : List (Effect × σ)) (past : List Effect),
      Action.HoldsAtStops (fun _ _ => True) past l := by
    intro l
    induction l with
    | nil => intro _; trivial
    | cons entry rest ih => exact fun past => ⟨trivial, ih _⟩
  have hall := deliverAll_recording recipient r.said k heard (htrue r.said heard)
  unfold Run.deliver at h ⊢
  cases hd : deliverAll recipient.recording (k, heard) r.said with
  | mk end_ failure =>
    rw [hd] at hall h
    cases failure with
    | some stop => simp at h
    | none => exact ⟨hall, h, rfl⟩

end LanguageServer
