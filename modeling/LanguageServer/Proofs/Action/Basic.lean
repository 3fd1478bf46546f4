import LanguageServer.Action

/-!
# Actions in turn

How the run of two actions in turn is made of the runs of the two.

## Main definitions

* `Effect.isPush` — whether diagnostics are published.

## Main statements

* `Action.run_bind` — what two actions in turn say, yield and leave.
* `Action.run_bind_eq_ok` — if they succeed, both of them did.
-/

namespace LanguageServer

/-- Whether diagnostics are published. -/
def Effect.isPush : Effect → Bool
  | .publish .. => true
  | _ => false

/-- What is said besides publishing. -/
def Effect.IsAside (e : Effect) : Prop := e.isPush = false

theorem Effect.IsAside.not_isPush {e : Effect} (h : e.IsAside) : ¬ e.isPush = true := by
  simp [show e.isPush = false from h]

namespace Action

variable {σ α β : Type}

/-- What two actions in turn say, yield and leave. -/
theorem run_bind (a : Action σ α) (f : α → Action σ β) (s : σ) :
    (a >>= f).run s =
      match a.run s with
      | ⟨said, .ok x, s'⟩ =>
        ⟨said ++ ((f x).run s').said, ((f x).run s').result, ((f x).run s').state⟩
      | ⟨said, .error e, s'⟩ => ⟨said, .error e, s'⟩ := by
  cases h : a.run s with
  | mk said result s' =>
    cases result with
    | ok x => exact run_bind_ok h
    | error e => exact run_bind_error h

/-- What follows an action that says nothing. -/
theorem run_bind_silent {a : Action σ α} {f : α → Action σ β} {s s' : σ} {x : α}
    (h : a.run s = ⟨[], .ok x, s'⟩) : (a >>= f).run s = (f x).run s' := by
  rw [run_bind_ok h, List.nil_append]

/-- If two actions in turn succeed, the first did, and then the second. -/
theorem run_bind_eq_ok {a : Action σ α} {f : α → Action σ β} {s : σ} {y : β}
    (h : ((a >>= f).run s).result = .ok y) :
    ∃ x, (a.run s).result = .ok x ∧ ((f x).run (a.run s).state).result = .ok y ∧
      ((a >>= f).run s).said = (a.run s).said ++ ((f x).run (a.run s).state).said ∧
      ((a >>= f).run s).state = ((f x).run (a.run s).state).state := by
  rw [run_bind] at h ⊢
  cases hr : a.run s with
  | mk said result s' =>
    cases result with
    | error e => simp [hr] at h
    | ok x =>
      rw [hr] at h
      exact ⟨x, rfl, h, rfl, rfl⟩

/-- An action whose result is passed on under a function. -/
theorem run_bind_pure (a : Action σ α) (f : α → β) (s : σ) :
    (a >>= fun x => pure (f x)).run s = ⟨(a.run s).said, (a.run s).result.map f, (a.run s).state⟩ := by
  rw [run_bind]
  cases h : a.run s with
  | mk said result s' => cases result <;> simp [Except.map]

/-- Saying something for each member of a list. -/
theorem run_forAll_say {ι : Type} (f : ι → Effect) (l : List ι) (s : σ) :
    (forAll (fun i => say (f i)) l).run s = ⟨l.map fun i => (f i, s), .ok (), s⟩ := by
  induction l with
  | nil => rfl
  | cons i rest ih =>
    show ((say (f i)) >>= fun _ => forAll (fun i => say (f i)) rest).run s = _
    rw [run_bind_ok (run_say _ _), ih]
    rfl

end Action

end LanguageServer
