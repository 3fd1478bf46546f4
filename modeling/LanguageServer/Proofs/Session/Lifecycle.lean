import LanguageServer.Proofs.Session.Moves
import Mathlib.Data.List.Forall2

/-!
# How a session lives

A session moves on event by event, and behind an exit nothing is read.  It ends orderly just
if it was initialised, then shut down, and then exited.

## Main definitions

* `Course.turns` — the events of a session, each with the session before and after it.
* `InOrder` — members of a list satisfy properties one after the other.
* `Session.Lives` — a session moves on until it ends.
* `Session.IsOrdered` — what this means for the course of a session.

## Main statements

* `Session.lives_runAll` — sessions live.
* `Session.Lives.isOrderly_iff` — which sessions end orderly.
* `Session.isOrdered_runAll` — sessions are ordered.
-/

namespace LanguageServer

variable {γ δ α : Type}

/-- An event that a session took up, with the session before and after it. -/
structure Turn (δ : Type) where
  event : Event
  before : Session δ
  after : Session δ

namespace Turn

/-- The session was initialised. -/
def Initialises (t : Turn δ) : Prop :=
  Session.eventMethod? t.event = some Method.initialise.name ∧
    t.before.lifecycle = .uninitialized ∧ t.after.lifecycle = .initialized

/-- A shutdown was accepted. -/
def ShutsDown (t : Turn δ) : Prop :=
  Session.eventMethod? t.event = some Method.shutdown.name ∧
    t.before.lifecycle = .initialized ∧ t.after.lifecycle = .shuttingDown

/-- An exit was handled. -/
def Exits (t : Turn δ) : Prop :=
  Session.eventMethod? t.event = some Method.exit.name ∧ t.after.lifecycle = .exited

end Turn

/-- The events that a session took up, each with the session before and after it. -/
def Course.turns (c : Course δ) (s : Session δ) (events : List Event) : List (Turn δ) :=
  List.zipWith (fun e x => ⟨e, x.1, x.2⟩) events ((s :: c.steps).zip c.steps)

@[simp] theorem Course.turns_nil (last s : Session δ) (fault : Option Fault)
    (unread events : List Event) : Course.turns ⟨[], last, fault, unread⟩ s events = [] :=
  List.zipWith_nil_right

/-! ### Properties in order -/

/-- Members of the list satisfy the properties one after the other. -/
def InOrder (ps : List (α → Prop)) (l : List α) : Prop :=
  ∃ l', l'.Sublist l ∧ List.Forall₂ (fun p a => p a) ps l'

section InOrder

variable {p : α → Prop} {ps : List (α → Prop)} {a : α} {l : List α}

theorem inOrder_nil : InOrder [] l := ⟨[], l.nil_sublist, .nil⟩

theorem not_inOrder_nil : ¬ InOrder (p :: ps) [] := by
  rintro ⟨l', hsub, hall⟩
  cases List.sublist_nil.1 hsub
  cases hall

theorem inOrder_cons_of_not (h : ¬ p a) : InOrder (p :: ps) (a :: l) ↔ InOrder (p :: ps) l := by
  refine ⟨?_, fun ⟨l', hsub, hall⟩ => ⟨l', hsub.cons a, hall⟩⟩
  rintro ⟨l', hsub, hall⟩
  cases hsub with
  | cons _ hsub => exact ⟨l', hsub, hall⟩
  | cons_cons _ hsub =>
    cases hall with
    | cons ha _ => exact absurd ha h

theorem inOrder_cons_of (h : p a) : InOrder (p :: ps) (a :: l) ↔ InOrder ps l := by
  refine ⟨?_, fun ⟨l', hsub, hall⟩ => ⟨a :: l', hsub.cons_cons a, .cons h hall⟩⟩
  rintro ⟨l', hsub, hall⟩
  cases hall with
  | @cons _ b _ l' _ hall => exact ⟨l', hsub.of_cons_cons, hall⟩

end InOrder

namespace Session

open Serving

/-- A session moves on event by event until it ends: before an event, behind an exit, or because
something failed.  Behind an exit nothing fails but the channel. -/
inductive Lives : Session (γ × List Note) → List Event → Course (γ × List Note) → Prop
  | ends {s : Session (γ × List Note)} {fault : Option Fault} (events : List Event)
      (h : fault ≠ none → s.lifecycle ≠ .exited) : Lives s events ⟨[], s, fault, events⟩
  | turn {s t : Session (γ × List Note)} {e : Event} {rest : List Event}
      {c : Course (γ × List Note)} (hexited : s.lifecycle ≠ .exited)
      (h : Moves (eventMethod? e) s t)
      (hexit : eventMethod? e = some Method.exit.name → s.failing = 0 → t.lifecycle = .exited)
      (hrest : Lives t rest c) :
      Lives s (e :: rest) { c with steps := t :: c.steps }

theorem eventMethod?_of_isClosing {e : Event} (h : isClosing e = true) : eventMethod? e = none := by
  cases e with
  | arrival r => cases r <;> first | rfl | cases h
  | _ => cases h

/-- Sessions live. -/
theorem lives_runAll (caps : Capabilities γ) (s : Session (γ × List Note)) (events : List Event) :
    Lives s events (runAll caps.noting s events) := by
  induction events generalizing s with
  | nil => exact .ends [] fun h => absurd rfl h
  | cons e rest ih =>
    rw [runAll]
    by_cases hexited : s.lifecycle = .exited
    · rw [if_pos hexited]
      exact .ends _ fun h => absurd rfl h
    · rw [if_neg hexited]
      by_cases hclosing : isClosing e = true
      · rw [if_pos hclosing]
        refine .turn (t := s.cleared) hexited (.of_core_eq rfl) (fun he _ => ?_)
          (.ends rest fun h => absurd rfl h)
        rw [eventMethod?_of_isClosing hclosing] at he
        cases he
      · rw [if_neg hclosing]
        have hmoves : Moves (eventMethod? e) s ((step caps.noting e).after s.cleared).2 :=
          .of_core (s := s.cleared) rfl rfl (moves_step (s := s.cleared) caps hexited e)
        have hexit (he : eventMethod? e = some Method.exit.name) (hs : s.failing = 0) :
            ((step caps.noting e).after s.cleared).2.lifecycle = .exited :=
          lifecycle_step_exit caps.noting he hs
        unfold after at hmoves hexit
        cases hstep : step caps.noting e s.cleared with
        | ok u t =>
          rw [hstep] at hmoves hexit
          exact .turn hexited hmoves hexit (ih t)
        | error f t =>
          rw [hstep] at hmoves hexit
          have hfault : (∃ reason, f = .channel reason) ∨ t.lifecycle ≠ .exited := by
            refine (step_eq_error hstep).imp_right fun hcore h => hexited ?_
            exact ((lifecycle_eq_of_core hcore).symm.trans h : s.cleared.lifecycle = .exited)
          cases f with
          | channel reason => exact .turn hexited hmoves hexit (.ends rest fun h => absurd rfl h)
          | _ =>
            refine .turn hexited hmoves hexit (.ends rest fun _ => hfault.resolve_left ?_)
            rintro ⟨reason, h⟩
            cases h

namespace Lives

variable {s : Session (γ × List Note)} {events : List Event} {c : Course (γ × List Note)}

/-- The events are taken up in order, from the first one on. -/
theorem heard (h : Lives s events c) : events = (c.turns s events).map (·.event) ++ c.unread := by
  induction h with
  | ends events h => simp
  | turn hexited h hexit hrest ih => exact congrArg _ ih

/-- Each event is taken up where the one before it left the session. -/
theorem linked (h : Lives s events c) :
    (c.turns s events).map (·.before) ++ [c.last] = s :: (c.turns s events).map (·.after) := by
  induction h with
  | ends events h => simp
  | turn hexited h hexit hrest ih => exact congrArg _ ih

/-- Each event moves the session on. -/
theorem moves (h : Lives s events c) :
    ∀ t ∈ c.turns s events, Moves (eventMethod? t.event) t.before t.after := by
  induction h with
  | ends events h => simp
  | turn hexited h hexit hrest ih => exact List.forall_mem_cons.2 ⟨h, ih⟩

/-- An exit is handled, unless the channel is failing. -/
theorem exits (h : Lives s events c) :
    ∀ t ∈ c.turns s events, eventMethod? t.event = some Method.exit.name → t.before.failing = 0 →
      t.Exits := by
  induction h with
  | ends events h => simp
  | turn hexited h hexit hrest ih =>
    exact List.forall_mem_cons.2 ⟨fun he hs => ⟨he, hexit he hs⟩, ih⟩

/-- Behind an exit nothing is taken up. -/
theorem eq_of_exited (h : Lives s events c) (hs : s.lifecycle = .exited) :
    c = ⟨[], s, none, events⟩ := by
  cases h with
  | @ends s fault events h =>
    obtain rfl : fault = none := Decidable.byContradiction fun hfault => h hfault hs
    rfl
  | turn hexited => exact absurd hs hexited

theorem pairwise_not_exited (h : Lives s events c) :
    (c.turns s events).Pairwise fun t _ => t.after.lifecycle ≠ .exited := by
  induction h with
  | ends events h => simp
  | turn hexited h hexit hrest ih =>
    refine List.pairwise_cons.2 ⟨fun u hu ht => ?_, ih⟩
    obtain rfl := hrest.eq_of_exited ht
    simp at hu

/-- A session that exited did not fail. -/
theorem fault_eq_none (h : Lives s events c) (hc : c.isOrderly = true) : c.fault = none := by
  unfold Course.isOrderly at hc
  induction h with
  | @ends s fault events h =>
    refine Decidable.byContradiction fun hfault => h hfault ?_
    simpa using (Bool.and_eq_true_iff.1 hc).1
  | turn hexited h hexit hrest ih => exact ih hc

/-! ### Ends -/

/-- What is missing for an orderly end, in order. -/
def missing (l : Lifecycle) : List (Turn δ → Prop) :=
  match l with
  | .uninitialized => [Turn.Initialises, Turn.ShutsDown, Turn.Exits]
  | .initialized => [Turn.ShutsDown, Turn.Exits]
  | .shuttingDown => [Turn.Exits]
  | .exited => []

/-- An event that leaves a session where it is brings nothing of what is missing. -/
theorem inOrder_missing_cons {l : Lifecycle} {t : Turn δ} {rest : List (Turn δ)}
    (ht : t.after.lifecycle = l) (hl : l ≠ .exited) :
    InOrder (missing l) (t :: rest) ↔ InOrder (missing l) rest := by
  cases l with
  | uninitialized => exact inOrder_cons_of_not fun h => nomatch ht.symm.trans h.2.2
  | initialized => exact inOrder_cons_of_not fun h => nomatch ht.symm.trans h.2.2
  | shuttingDown => exact inOrder_cons_of_not fun h => nomatch ht.symm.trans h.2
  | exited => exact absurd rfl hl

/-- An exit is all that was missing just if the session was shutting down. -/
theorem inOrder_missing_exit {t : Turn δ} (ht : t.Exits) {l : Lifecycle} (hl : l ≠ .exited) :
    InOrder (missing l) [t] ↔ l = .shuttingDown := by
  cases l with
  | uninitialized =>
    exact iff_of_false (fun h => not_inOrder_nil ((inOrder_cons_of_not
      fun h' : Turn.Initialises t => nomatch ht.2.symm.trans h'.2.2).1 h)) nofun
  | initialized =>
    exact iff_of_false (fun h => not_inOrder_nil
      ((inOrder_cons_of_not fun h' : Turn.ShutsDown t => nomatch ht.2.symm.trans h'.2.2).1 h)) nofun
  | shuttingDown => exact iff_of_true ((inOrder_cons_of ht).2 inOrder_nil) rfl
  | exited => exact absurd rfl hl

/-- A session in which a shutdown was requested just if it is shutting down ends orderly just if
what is missing happens. -/
theorem isOrderly_iff (h : Lives s events c) (hs : s.lifecycle ≠ .exited)
    (hrequested : s.shutdownRequested = true ↔ s.lifecycle = .shuttingDown) :
    c.isOrderly = true ↔ InOrder (missing s.lifecycle) (c.turns s events) := by
  induction h with
  | @ends s fault events h =>
    refine iff_of_false (by simp [Course.isOrderly, hs]) ?_
    rw [Course.turns_nil]
    cases hl : s.lifecycle with
    | exited => exact absurd hl hs
    | _ => exact not_inOrder_nil
  | @turn s t e rest c hexited h hexit hrest ih =>
    show c.isOrderly = true ↔ InOrder (missing s.lifecycle) (⟨e, s, t⟩ :: c.turns t rest)
    cases h.proceeds with
    | stays hl hr =>
      rw [ih (hl ▸ hs) (by rw [hl, hr, hrequested]), hl, inOrder_missing_cons hl hs]
    | initialises hm hb ha hr =>
      rw [ih (by simp [ha]) (by simp [ha, hr, hrequested, hb]), ha, hb]
      exact (inOrder_cons_of ⟨hm, hb, ha⟩).symm
    | shutsDown hm hb ha hr =>
      rw [ih (by simp [ha]) (by simp [ha, hr]), ha, hb]
      exact (inOrder_cons_of ⟨hm, hb, ha⟩).symm
    | exits hm hb ha hr =>
      obtain rfl := hrest.eq_of_exited ha
      rw [Course.turns_nil, inOrder_missing_exit ⟨hm, ha⟩ hs, ← hrequested, ← hr]
      simp [Course.isOrderly, ha]

end Lives

/-! ### Preparations -/

/-- The calls of a session: once asking the capabilities to prepare succeeded, they are not asked
again, and it did not succeed while the session is uninitialised. -/
structure IsPreparedOnce (s : Session (γ × List Note)) : Prop where
  once : s.notes.Pairwise fun n n' =>
    n.call.isInitialise = true → n.returned = true → n'.call.isInitialise = false
  unprepared : s.lifecycle = .uninitialized →
    ∀ n ∈ s.notes, n.call.isInitialise = true → n.returned = false

theorem IsPreparedOnce.move {method? : Option String} {s t : Session (γ × List Note)}
    (hs : IsPreparedOnce s) (h : Moves method? s t) : IsPreparedOnce t := by
  obtain ⟨new, hnotes, hcalls⟩ := h.calls
  cases hcalls with
  | none =>
    rw [List.append_nil] at hnotes
    exact ⟨hnotes ▸ hs.once, fun ht => hnotes ▸ hs.unprepared (h.proceeds.eq_uninitialized ht)⟩
  | @preparing n hcall _ hl hreturned =>
    refine ⟨?_, fun ht n' hn' hcall' => ?_⟩
    · rw [hnotes, List.pairwise_append]
      refine ⟨hs.once, List.pairwise_singleton _ _, fun n₁ hn₁ _ _ hcall₁ hreturned₁ => ?_⟩
      rw [hs.unprepared hl n₁ hn₁ hcall₁] at hreturned₁
      cases hreturned₁
    · rw [hnotes, List.mem_append, List.mem_singleton] at hn'
      rcases hn' with hn' | rfl
      · exact hs.unprepared hl n' hn' hcall'
      · exact Bool.eq_false_iff.2 fun h => nomatch ht.symm.trans (hreturned.1 h)
  | @working n hcall _ hl =>
    refine ⟨?_, fun ht => nomatch hl.symm.trans (h.proceeds.eq_uninitialized ht)⟩
    rw [hnotes, List.pairwise_append]
    refine ⟨hs.once, List.pairwise_singleton _ _, fun _ _ n₂ hn₂ _ _ => ?_⟩
    rwa [List.mem_singleton.1 hn₂]

theorem Lives.isPreparedOnce {s : Session (γ × List Note)} {events : List Event}
    {c : Course (γ × List Note)} (h : Lives s events c) (hs : IsPreparedOnce s) :
    IsPreparedOnce c.last := by
  induction h with
  | ends events h => exact hs
  | turn hexited h hexit hrest ih => exact ih (hs.move h)

/-! ## Main result -/

/-- What holds of the course that a session takes. -/
structure IsOrdered (s : Session (γ × List Note)) (events : List Event)
    (c : Course (γ × List Note)) : Prop where
  /-- The events are taken up in order, from the first one on. -/
  heard : events = (c.turns s events).map (·.event) ++ c.unread
  /-- Each event is taken up where the one before it left the session, up to its last state. -/
  linked : (c.turns s events).map (·.before) ++ [c.last] = s :: (c.turns s events).map (·.after)
  /-- The session moves forward only, and calls the capabilities as the point of its life admits. -/
  moves : ∀ t ∈ c.turns s events, Moves (eventMethod? t.event) t.before t.after
  /-- The session exits from anywhere, unless the channel is failing. -/
  exits : ∀ t ∈ c.turns s events, eventMethod? t.event = some Method.exit.name →
    t.before.failing = 0 → t.Exits
  /-- Nothing is taken up behind an exit. -/
  behindExit : (c.turns s events).Pairwise fun t _ => t.after.lifecycle ≠ .exited
  /-- The capabilities are not asked to prepare again once they did. -/
  once : c.last.notes.Pairwise fun n n' =>
    n.call.isInitialise = true → n.returned = true → n'.call.isInitialise = false
  /-- The session ends orderly just if it was initialised, then shut down and then exited. -/
  orderly : c.fault = none ∧ c.isOrderly = true ↔
    InOrder [Turn.Initialises, Turn.ShutsDown, Turn.Exits] (c.turns s events)

/-- Sessions are ordered, whatever the capabilities: noting their calls changes nothing, and the
course of a session whose calls are noted is in order. -/
theorem isOrdered_runAll (caps : Capabilities γ) (host : γ) (events : List Event) :
    (runAll caps.noting { host := (host, []) } events).mapHost Prod.fst =
        runAll caps { host } events ∧
      IsOrdered { host := (host, []) } events
        (runAll caps.noting { host := (host, []) } events) := by
  refine ⟨(runAll_mapHost caps.refine_noting _ events).symm, ?_⟩
  have h := lives_runAll caps { host := (host, []) } events
  have horderly := h.isOrderly_iff nofun (iff_of_false nofun nofun)
  exact
    { heard := h.heard
      linked := h.linked
      moves := h.moves
      exits := h.exits
      behindExit := h.pairwise_not_exited
      once := (h.isPreparedOnce ⟨.nil, fun _ => nofun⟩).once
      orderly := ⟨fun hc => horderly.1 hc.2,
        fun hc => ⟨h.fault_eq_none (horderly.2 hc), horderly.2 hc⟩⟩ }

end Session

end LanguageServer
