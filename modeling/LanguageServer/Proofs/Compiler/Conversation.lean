import LanguageServer.Compiler.Engine
import LanguageServer.Fault

/-!
# Conversing with an engine

A computation that asks questions is a function of how they are answered.  An answer may
be a fault, which ends the computation.

## Main definitions

* `Exchange` — a question with its answer.
* `Compiling.converse` — the questions of a computation with their answers, and how it ends.
* `Compiling.breakOff` — what is left of a conversation before the first answer that is a fault.
* `Compiling.Ends` — a computation ends with a result after some questions, however answered.
* `Fault.stopsCompiling` — the faults in which it can end.

## Main statements

* `Compiling.converse_andThen` — conversing with two computations in turn.
* `Compiling.converse_eq_breakOff` — answers that are faults only break a conversation off.
* `Compiling.Ends.of_andThen` — two computations in turn end one after the other.
-/

namespace LanguageServer

/-- A question of a computation with its answer. -/
structure Exchange where
  kind : String
  path : String
  outcome : ReadOutcome

/-- Whether the fault is one of a path or of the engine. -/
def Fault.stopsCompiling : Fault → Bool
  | .path _ => true
  | .engine _ => true
  | .endless => true
  | _ => false

namespace Compiling

variable {α β : Type}

/-- The questions of a computation with their answers, and how it ends.  An answer that is a fault
ends it. -/
def converse (answer : String → String → Except Fault ReadOutcome) :
    Compiling α → List Exchange × Except Fault α
  | .done a => ([], .ok a)
  | .failed reason => ([], .error (.engine reason))
  | .unfinished => ([], .error .endless)
  | .ask kind path next =>
    match answer kind path with
    | .error f => ([], .error f)
    | .ok outcome =>
      let r := (next outcome).converse answer
      (⟨kind, path, outcome⟩ :: r.1, r.2)

/-- Conversing with two computations in turn. -/
theorem converse_andThen (answer : String → String → Except Fault ReadOutcome) (c : Compiling α)
    (f : α → Compiling β) :
    (c.andThen f).converse answer =
      match c.converse answer with
      | (exchanges, .ok a) =>
        (exchanges ++ ((f a).converse answer).1, ((f a).converse answer).2)
      | (exchanges, .error e) => (exchanges, .error e) := by
  induction c with
  | done a => rfl
  | failed reason => rfl
  | unfinished => rfl
  | ask kind path next ih =>
    cases h : answer kind path with
    | error e => simp [andThen, converse, h]
    | ok outcome =>
      simp only [andThen, converse, h, ih]
      split <;> simp_all

/-- The questions of a computation are answered by the function that it converses with. -/
theorem answer_of_mem_converse {answer : String → String → Except Fault ReadOutcome}
    {c : Compiling α} {x : Exchange} (h : x ∈ (c.converse answer).1) :
    answer x.kind x.path = .ok x.outcome := by
  induction c with
  | done a => cases h
  | failed reason => cases h
  | unfinished => cases h
  | ask kind path next ih =>
    unfold converse at h
    cases hanswer : answer kind path with
    | error f => simp [hanswer] at h
    | ok outcome =>
      simp only [hanswer, List.mem_cons] at h
      rcases h with rfl | h
      · exact hanswer
      · exact ih outcome h

/-- A computation ends in a fault of its answers, or in one of the engine. -/
theorem converse_eq_error {answer : String → String → Except Fault ReadOutcome}
    (hanswer : ∀ kind path f, answer kind path = .error f → f.stopsCompiling = true)
    {c : Compiling α} {f : Fault} (h : (c.converse answer).2 = .error f) :
    f.stopsCompiling = true := by
  induction c with
  | done a => simp [converse] at h
  | failed reason =>
    obtain rfl : Fault.engine reason = f := Except.error.inj h
    rfl
  | unfinished =>
    obtain rfl : Fault.endless = f := Except.error.inj h
    rfl
  | ask kind path next ih =>
    unfold converse at h
    cases hans : answer kind path with
    | error e =>
      simp only [hans, Except.error.injEq] at h
      exact hanswer kind path f (h ▸ hans)
    | ok outcome =>
      simp only [hans] at h
      exact ih outcome h

/-! ## Answers that are faults -/

/-- What is left of a conversation if it is broken off at the first answer that is a fault. -/
def breakOff (answer : String → String → Except Fault ReadOutcome) (a : α) :
    List Exchange → List Exchange × Except Fault α
  | [] => ([], .ok a)
  | x :: rest =>
    match answer x.kind x.path with
    | .error f => ([], .error f)
    | .ok _ => (x :: (breakOff answer a rest).1, (breakOff answer a rest).2)

/-- If the same answers are given but for those that are faults, the conversation is the same up to the
first of these. -/
theorem converse_eq_breakOff {answer answer' : String → String → Except Fault ReadOutcome}
    (hagree : ∀ kind path outcome, answer kind path = .ok outcome → answer' kind path = .ok outcome)
    {c : Compiling α} {exchanges : List Exchange} {a : α}
    (h : c.converse answer' = (exchanges, .ok a)) :
    c.converse answer = breakOff answer a exchanges := by
  induction c generalizing exchanges with
  | done b =>
    obtain ⟨rfl, hb⟩ := Prod.mk.inj h
    obtain rfl := Except.ok.inj hb
    rfl
  | failed reason => cases h
  | unfinished => cases h
  | ask kind path next ih =>
    unfold converse at h ⊢
    cases hanswer' : answer' kind path with
    | error f => simp [hanswer'] at h
    | ok outcome' =>
      simp only [hanswer'] at h
      obtain ⟨rfl, hresult⟩ := Prod.mk.inj h
      cases hanswer : answer kind path with
      | error f => simp [breakOff, hanswer]
      | ok outcome =>
        obtain rfl := Except.ok.inj ((hagree _ _ _ hanswer).symm.trans hanswer')
        simp [breakOff, hanswer, ih outcome (Prod.ext rfl hresult)]

/-- A conversation that is broken off ends in the fault of an answer. -/
theorem exists_of_breakOff {answer : String → String → Except Fault ReadOutcome} {a : α}
    {exchanges : List Exchange} {f : Fault} (h : (breakOff answer a exchanges).2 = .error f) :
    ∃ x ∈ exchanges, answer x.kind x.path = .error f := by
  induction exchanges with
  | nil => cases h
  | cons x rest ih =>
    unfold breakOff at h
    cases hanswer : answer x.kind x.path with
    | error e =>
      simp only [hanswer, Except.error.injEq] at h
      exact ⟨x, List.mem_cons_self, h ▸ hanswer⟩
    | ok outcome =>
      simp only [hanswer] at h
      obtain ⟨y, hy, hfault⟩ := ih h
      exact ⟨y, List.mem_cons_of_mem _ hy, hfault⟩

/-! ## Any answers -/

/-- A computation ends with a result after some questions.  The answers can be any: the same question
may be answered in different ways. -/
inductive Ends : Compiling α → List Exchange → α → Prop
  | done (a : α) : Ends (.done a) [] a
  | ask {kind path : String} {next : ReadOutcome → Compiling α} {exchanges : List Exchange} {a : α}
      (outcome : ReadOutcome) (h : Ends (next outcome) exchanges a) :
      Ends (.ask kind path next) (⟨kind, path, outcome⟩ :: exchanges) a

/-- Two computations in turn end one after the other. -/
theorem Ends.of_andThen {f : α → Compiling β} {exchanges : List Exchange} {b : β} :
    {c : Compiling α} → (c.andThen f).Ends exchanges b →
      ∃ first a second, exchanges = first ++ second ∧ c.Ends first a ∧ (f a).Ends second b
  | .done a, h => ⟨[], a, exchanges, rfl, .done a, h⟩
  | .ask _ _ _, .ask outcome h => by
    obtain ⟨first, a, second, rfl, hfirst, hsecond⟩ := of_andThen h
    exact ⟨_, a, second, rfl, .ask outcome hfirst, hsecond⟩

/-- What is made of a result without more questions is the result after the same questions. -/
theorem Ends.map {f : α → β} {c : Compiling α} {exchanges : List Exchange} {a : α}
    (h : c.Ends exchanges a) : (c.andThen fun a => .done (f a)).Ends exchanges (f a) := by
  induction h with
  | done a => exact .done (f a)
  | ask outcome _ ih => exact .ask outcome ih

/-- The answers of a function are some answers. -/
theorem ends_of_converse {answer : String → String → Except Fault ReadOutcome} {c : Compiling α}
    {a : α} (h : (c.converse answer).2 = .ok a) : c.Ends (c.converse answer).1 a := by
  induction c with
  | done b =>
    obtain rfl : b = a := Except.ok.inj h
    exact .done b
  | failed reason => cases h
  | unfinished => cases h
  | ask kind path next ih =>
    unfold converse at h ⊢
    cases hanswer : answer kind path with
    | error f => simp [hanswer] at h
    | ok outcome =>
      simp only [hanswer] at h ⊢
      exact .ask outcome (ih outcome h)

/-- What is read off a result is read off a result that the computation ends with. -/
theorem exists_ends_of_map {answer : String → String → Except Fault ReadOutcome} {c : Compiling α}
    {f : α → β} {b : β} (h : (c.converse answer).2.map f = .ok b) :
    ∃ exchanges a, c.Ends exchanges a ∧ f a = b := by
  cases hresult : (c.converse answer).2 with
  | error e => simp [hresult, Except.map] at h
  | ok a =>
    rw [hresult] at h
    exact ⟨_, a, ends_of_converse hresult, Except.ok.inj h⟩

end Compiling

end LanguageServer
