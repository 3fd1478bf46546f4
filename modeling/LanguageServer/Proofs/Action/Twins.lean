import LanguageServer.Proofs.Action.Basic
import LanguageServer.Proofs.Compiler.Conversation
import Mathlib.Data.List.Forall2

/-!
# The same action twice

An action that is run in two states does the same twice if it says the same to the client
and yields the same; what it exchanges with the engine may differ.  The states in which it
ends are related, and so are those in which publishing may fail.

## Main definitions

* `Effect.isCall` — whether something is exchanged with the engine.
* `Run.Matches` — two runs say and yield the same, and end in related states.
* `Action.Twins` — an action does the same in related states.

## Main statements

* `Action.Twins.bind`, `Action.Twins.forAll` — doing the same is kept by sequencing.
-/

namespace LanguageServer

/-- Whether something is exchanged with the engine. -/
def Effect.isCall : Effect → Bool
  | .engine _ => true
  | _ => false

/-- What is said besides exchanges with the engine. -/
def Run.audible {σ α : Type} (r : Run σ α) : List (Effect × σ) := r.said.filter (!·.1.isCall)

theorem Run.map_audible {σ α : Type} (r : Run σ α) :
    r.audible.map (·.1) = (r.said.map (·.1)).filter (!·.isCall) := by
  simp [Run.audible, List.filter_map, Function.comp_def]

/-- Two entries say the same; if publishing fails there, the states are related. -/
structure Echoes {σ : Type} (I : σ → σ → Prop) (x y : Effect × σ) : Prop where
  effect : y.1 = x.1
  state : x.1.isPush = true → I x.2 y.2

/-- Entries that say the same and publish nothing. -/
theorem forall₂_echoes {σ : Type} {I : σ → σ → Prop} {l l' : List (Effect × σ)}
    (h : l'.map (·.1) = l.map (·.1)) (hpush : ∀ e ∈ l, e.1.IsAside) :
    List.Forall₂ (Echoes I) l l' := by
  induction l generalizing l' with
  | nil =>
    obtain rfl := List.map_eq_nil_iff.1 h
    exact .nil
  | cons x rest ih =>
    obtain ⟨y, rest', rfl, heq, hrest⟩ := List.map_eq_cons_iff.1 h
    refine .cons ⟨heq, fun hx => ?_⟩ (ih hrest fun e he => hpush e (List.mem_cons_of_mem _ he))
    exact absurd hx (hpush x List.mem_cons_self).not_isPush

/-- Two runs say and yield the same.  They end in related states: by `S` with a result, by `E` with
a fault; and wherever publishing may fail, states are related by `I`. -/
structure Run.Matches {σ α : Type} (I : σ → σ → Prop) (E : Fault → σ → σ → Prop)
    (S : α → σ → σ → Prop) (r r' : Run σ α) : Prop where
  said : List.Forall₂ (Echoes I) r.audible r'.audible
  result : r'.result = r.result
  ok : ∀ x, r.result = .ok x → S x r.state r'.state
  error : ∀ f, r.result = .error f → E f r.state r'.state

/-- Two runs that match leave more than they have to. -/
theorem Run.Matches.imp {σ α : Type} {I I' : σ → σ → Prop} {E E' : Fault → σ → σ → Prop}
    {S S' : α → σ → σ → Prop} {r r' : Run σ α} (h : r.Matches I E S r')
    (hI : ∀ s s', I s s' → I' s s') (hE : ∀ f s s', E f s s' → E' f s s')
    (hS : ∀ x s s', S x s s' → S' x s s') : r.Matches I' E' S' r' where
  said := h.said.imp fun _ _ hecho => ⟨hecho.effect, fun hpush => hI _ _ (hecho.state hpush)⟩
  result := h.result
  ok x hx := hS x _ _ (h.ok x hx)
  error f hf := hE f _ _ (h.error f hf)

namespace Action

variable {σ α β : Type}

/-- From related states the action does the same. -/
def Twins (I : σ → σ → Prop) (E : Fault → σ → σ → Prop) (R : σ → σ → Prop) (S : α → σ → σ → Prop)
    (a : Action σ α) : Prop :=
  ∀ s s', R s s' → (a.run s).Matches I E S (a.run s')

theorem audible_run_bind_ok {a : Action σ α} {f : α → Action σ β} {s s' : σ} {x : α}
    {said : List (Effect × σ)} (h : a.run s = ⟨said, .ok x, s'⟩) :
    ((a >>= f).run s).audible = (a.run s).audible ++ ((f x).run s').audible := by
  rw [run_bind_ok h, h]
  simp [Run.audible]

/-- Matching runs in turn match. -/
theorem matches_bind {I : σ → σ → Prop} {E : Fault → σ → σ → Prop}
    {S : α → σ → σ → Prop} {T : β → σ → σ → Prop}
    {a : Action σ α} {f : α → Action σ β} {s s' : σ} (ha : (a.run s).Matches I E S (a.run s'))
    (hf : ∀ x t t', S x t t' → ((f x).run t).Matches I E T ((f x).run t')) :
    ((a >>= f).run s).Matches I E T ((a >>= f).run s') := by
  cases hr : a.run s with
  | mk said result t =>
    cases hr' : a.run s' with
    | mk said' result' t' =>
      obtain rfl : result' = result := by simpa [hr, hr'] using ha.result
      cases result' with
      | error e =>
        have hsaid := ha.said
        have herror := ha.error
        rw [hr, hr'] at hsaid herror
        rw [run_bind_error hr, run_bind_error hr']
        refine ⟨hsaid, rfl, fun _ => nofun, fun f hf => ?_⟩
        obtain rfl := Except.error.inj hf
        exact herror e rfl
      | ok x =>
        have hstate : S x t t' := by simpa [hr, hr'] using ha.ok x (by rw [hr])
        have hnext := hf x t t' hstate
        refine ⟨?_, ?_, ?_, ?_⟩
        · rw [audible_run_bind_ok hr, audible_run_bind_ok hr']
          exact List.rel_append ha.said hnext.said
        · rw [run_bind_ok hr, run_bind_ok hr']
          exact hnext.result
        · rw [run_bind_ok hr, run_bind_ok hr']
          exact hnext.ok
        · rw [run_bind_ok hr, run_bind_ok hr']
          exact hnext.error

namespace Twins

variable {I R R' : σ → σ → Prop} {E : Fault → σ → σ → Prop} {S : α → σ → σ → Prop} {T : β → σ → σ → Prop}

theorem bind {a : Action σ α} {f : α → Action σ β} (ha : Twins I E R S a)
    (hf : ∀ x, Twins I E (S x) T (f x)) : Twins I E R T (a >>= f) :=
  fun s s' h => matches_bind (ha s s' h) fun x t t' => hf x t t'

theorem weaken {a : Action σ α} (h : Twins I E R S a) (hR : ∀ s s', R' s s' → R s s') :
    Twins I E R' S a := fun s s' hs => h s s' (hR s s' hs)

theorem imp {I' : σ → σ → Prop} {E' : Fault → σ → σ → Prop} {S' : α → σ → σ → Prop}
    {a : Action σ α} (h : Twins I E R S a) (hI : ∀ s s', I s s' → I' s s')
    (hE : ∀ f s s', E f s s' → E' f s s') (hS : ∀ x s s', S x s s' → S' x s s') :
    Twins I' E' R S' a := fun s s' hs => (h s s' hs).imp hI hE hS

theorem pure (x : α) (hS : ∀ s s', R s s' → S x s s') : Twins I E R S (Pure.pure x) := by
  intro s s' h
  refine ⟨.nil, rfl, fun y hy => ?_, fun _ => nofun⟩
  obtain rfl := Except.ok.inj hy
  exact hS s s' h

theorem update {f : σ → σ} {S : Unit → σ → σ → Prop} (hf : ∀ s s', R s s' → S () (f s) (f s')) :
    Twins I E R S (Action.update f) := fun s s' h =>
  ⟨.nil, rfl, fun _ _ => hf s s' h, fun _ => nofun⟩

theorem stop {e : Fault} (h : ∀ s s', R s s' → E e s s') : Twins I E R S (Action.stop e) := by
  intro s s' hs
  refine ⟨.nil, rfl, fun _ => nofun, fun f hf => ?_⟩
  obtain rfl := Except.error.inj hf
  exact h s s' hs

/-- Taking over a result, of which what follows may make use. -/
theorem ofExcept {ε : Type} {fault : ε → Fault} {r : Except ε α}
    (hok : ∀ x, r = .ok x → ∀ s s', R s s' → S x s s')
    (herror : ∀ e, r = .error e → ∀ s s', R s s' → E (fault e) s s') :
    Twins I E R S (Action.ofExcept fault r) := by
  cases r with
  | ok x => exact Twins.pure x (hok x rfl)
  | error e => exact Twins.stop (herror e rfl)

/-- Saying something; if it may fail, the states must be related. -/
theorem say {e : Effect} (he : e.isPush = true → ∀ s s', R s s' → I s s') :
    Twins I E R (fun _ => R) (Action.say e) := by
  intro s s' h
  refine ⟨?_, rfl, fun _ _ => h, fun _ => nofun⟩
  simp only [Run.audible, run_say, List.filter_cons]
  split
  · exact .cons ⟨rfl, fun hpush => he hpush s s' h⟩ .nil
  · exact .nil

/-- What follows a look at the states. -/
theorem state_bind {f : σ → Action σ α}
    (hf : ∀ s s', R s s' → ((f s).run s).Matches I E S ((f s').run s')) :
    Twins I E R S (Action.state >>= f) := by
  intro s s' h
  rw [run_bind_ok (run_state s), run_bind_ok (run_state s')]
  simpa using hf s s' h

theorem forAll {ι : Type} {f : ι → Action σ Unit} (hf : ∀ i, Twins I E R (fun _ => R) (f i))
    (l : List ι) : Twins I E R (fun _ => R) (Action.forAll f l) := by
  induction l with
  | nil => exact Twins.pure () fun _ _ h => h
  | cons i rest ih => exact Twins.bind (hf i) fun _ => ih

end Twins

end Action

end LanguageServer
