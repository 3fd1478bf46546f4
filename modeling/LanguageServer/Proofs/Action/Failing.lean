import LanguageServer.Proofs.Action.Basic

/-!
# How actions fail

What an action can fail with follows from what its parts can fail with.

## Main definitions

* `Action.FailsWith` — an action fails with faults of a kind only.
* `Action.FailsInside` — an action neither answers a request nor speaks for the channel.
-/

namespace LanguageServer

/-- Whether a fault arises inside: it is no answer to a request, and no failure of the channel. -/
def Fault.isInner : Fault → Bool
  | .refused _ => false
  | .channel _ => false
  | _ => true

namespace Action

variable {σ α β : Type} {P : Fault → Prop}

/-- The action fails with faults of a kind only. -/
def FailsWith (P : Fault → Prop) (a : Action σ α) : Prop :=
  ∀ s f, (a.run s).result = .error f → P f

/-- The action fails only with faults that arise inside. -/
abbrev FailsInside (a : Action σ α) : Prop := a.FailsWith (·.isInner = true)

namespace FailsWith

theorem pure (x : α) : FailsWith P (Pure.pure x : Action σ α) := fun _ _ => nofun

theorem state : FailsWith P (Action.state : Action σ σ) := fun _ _ => nofun

theorem update (f : σ → σ) : FailsWith P (Action.update f) := fun _ _ => nofun

theorem say (e : Effect) : FailsWith P (Action.say e : Action σ Unit) := fun _ _ => nofun

theorem stop {f : Fault} (h : P f) : FailsWith P (Action.stop f : Action σ α) :=
  fun _ _ heq => Except.error.inj heq ▸ h

theorem ofExcept {ε : Type} {fault : ε → Fault} (h : ∀ e, P (fault e)) (r : Except ε α) :
    FailsWith P (Action.ofExcept fault r : Action σ α) := by
  cases r with
  | ok x => exact pure x
  | error e => exact stop (h e)

theorem inner {ε : Type} {fault : ε → Fault} (h : ∀ e, (fault e).isInner = true) (r : Except ε α) :
    FailsInside (Action.ofExcept fault r : Action σ α) :=
  ofExcept h r

theorem bind {a : Action σ α} {f : α → Action σ β} (ha : FailsWith P a)
    (hf : ∀ x, FailsWith P (f x)) : FailsWith P (a >>= f) := by
  intro s fault
  have hs := ha s fault
  rw [run_bind]
  cases h : a.run s with
  | mk said result s' =>
    rw [h] at hs
    cases result with
    | ok x => exact hf x s' fault
    | error e => exact fun heq => hs (congrArg Except.error (Except.error.inj heq))

theorem forAll {ι : Type} {f : ι → Action σ Unit} (hf : ∀ i, FailsWith P (f i)) (l : List ι) :
    FailsWith P (Action.forAll f l) := by
  induction l with
  | nil => exact pure ()
  | cons i rest ih => exact bind (hf i) fun _ => ih

end FailsWith

/-- An action that fails only with faults that arise inside does not answer a request. -/
theorem FailsInside.not_refused {a : Action σ α} (ha : a.FailsInside) {s : σ} {e : RequestError} :
    (a.run s).result ≠ .error (.refused e) :=
  fun h => absurd (ha s _ h) (by simp [Fault.isInner])

end Action

end LanguageServer
