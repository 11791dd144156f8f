import Mathlib.Logic.Basic
import Mathlib.Data.List.Induction

/-
  Runs of a machine that takes one event after another.

  `Run.exec` folds a step function over a list of events. `Run.Along` says that every step of a run
  meets a condition on the event and on the state before it; invariants are carried along such runs.

  `Run.observe` collects what the events of a run show. An `Run.Unwinding` is a relation on states
  under which the irrelevant events can be deleted without changing what the relevant ones show.

  Key results include:
    * `Run.exec_last_relevant`
    * `Run.exec_invariant`
    * `Run.exec_preserves`
    * `Run.along_invariant`
    * `Run.along_congr`
    * `Run.along_step_iff`
    * `Run.exists_exec_of_measure`
    * `Run.observe_filter`
    * `Run.Counted.le_and_eq`
-/

namespace Run

variable {σ ε ω : Type}

----
-- Execution
----

/- The state after the events. -/
def exec (step : σ → ε → σ) (s : σ) (events : List ε) : σ := events.foldl step s

@[simp] theorem exec_nil (step : σ → ε → σ) (s : σ) : exec step s [] = s := rfl

@[simp] theorem exec_cons (step : σ → ε → σ) (s : σ) (e : ε) (events : List ε) :
    exec step s (e :: events) = exec step (step s e) events :=
  rfl

theorem exec_append (step : σ → ε → σ) (s : σ) (before after : List ε) :
    exec step s (before ++ after) = exec step (exec step s before) after :=
  List.foldl_append

variable {s : σ} {events : List ε} {step : σ → ε → σ}

theorem exec_eq_self (hIdle : ∀ e ∈ events, ∀ s, step s e = s) : exec step s events = s := by
  induction events generalizing s with
  | nil => rfl
  | cons e events ih =>
    rw [exec_cons, hIdle e List.mem_cons_self s]
    exact ih (fun e he => hIdle e (List.mem_cons_of_mem _ he))

/- Events that keep the state or establish a property. -/
theorem exec_self_or {G : σ → Prop} (hEach : ∀ e ∈ events, ∀ s, step s e = s ∨ G (step s e)) :
    exec step s events = s ∨ G (exec step s events) := by
  induction events generalizing s with
  | nil => exact Or.inl rfl
  | cons e events ih =>
    rw [List.forall_mem_cons] at hEach
    rw [exec_cons]
    rcases hEach.1 s with hSame | hGood
    · rw [hSame]
      exact ih hEach.2
    · right
      rcases ih (s := step s e) hEach.2 with hKept | hAgain
      · rw [hKept]
        exact hGood
      · exact hAgain

/- When only the relevant events change the state, the last of them is the last to do so. -/
theorem exec_last_relevant (step : σ → ε → σ) (relevant : ε → Bool)
    (hIdle : ∀ s e, relevant e = false → step s e = s) (s : σ) (events : List ε) :
    match events.reverse.find? relevant with
    | none => exec step s events = s
    | some e => ∃ s', exec step s events = step s' e := by
  induction events using List.reverseRecOn with
  | nil => rfl
  | append_singleton before e ih =>
    rw [List.reverse_append, List.reverse_singleton, List.singleton_append, exec_append]
    cases hE : relevant e with
    | true =>
      rw [List.find?_cons_of_pos hE]
      exact ⟨_, rfl⟩
    | false =>
      rw [List.find?_cons_of_neg (by simp [hE]), exec_cons, exec_nil, hIdle _ e hE]
      exact ih

/- Every step of the run meets the condition. -/
def Along (step : σ → ε → σ) (P : σ → ε → Prop) : σ → List ε → Prop
  | _, [] => True
  | s, e :: events => P s e ∧ Along step P (step s e) events

instance decidableAlong (step : σ → ε → σ) (P : σ → ε → Prop) [∀ s e, Decidable (P s e)] :
    ∀ s events, Decidable (Along step P s events)
  | _, [] => inferInstanceAs (Decidable True)
  | s, e :: events =>
    have := decidableAlong step P (step s e) events
    inferInstanceAs (Decidable (P s e ∧ Along step P (step s e) events))

----
-- Invariants
----

section Invariants

variable {step : σ → ε → σ} {P Q : σ → ε → Prop} {Inv : σ → Prop}

variable {s : σ} {events : List ε}

theorem Along.imp (hImp : ∀ s e, P s e → Q s e) (hAlong : Along step P s events) :
    Along step Q s events := by
  induction events generalizing s with
  | nil => trivial
  | cons e events ih => exact ⟨hImp s e hAlong.1, ih hAlong.2⟩

theorem along_of_forall (hAll : ∀ e ∈ events, ∀ s, P s e) : Along step P s events := by
  induction events generalizing s with
  | nil => trivial
  | cons e events ih =>
    rw [List.forall_mem_cons] at hAll
    exact ⟨hAll.1 s, ih hAll.2⟩

/- A condition on the events joins one on the steps. -/
theorem Along.and_forall {R : ε → Prop} (hAlong : Along step P s events)
    (hAll : ∀ e ∈ events, R e) : Along step (fun s e => P s e ∧ R e) s events := by
  induction events generalizing s with
  | nil => trivial
  | cons e events ih =>
    rw [List.forall_mem_cons] at hAll
    exact ⟨⟨hAlong.1, hAll.1⟩, ih hAlong.2 hAll.2⟩

/- An invariant holds before every step it is kept by. -/
theorem along_invariant (hStep : ∀ s e, Inv s → P s e → Inv (step s e)) (hInv : Inv s)
    (hAlong : Along step P s events) : Along step (fun s e => Inv s ∧ P s e) s events := by
  induction events generalizing s with
  | nil => trivial
  | cons e events ih =>
    refine ⟨⟨hInv, hAlong.1⟩, ?_⟩
    exact ih (hStep s e hInv hAlong.1) hAlong.2

theorem exec_invariant (hStep : ∀ s e, Inv s → P s e → Inv (step s e)) (hInv : Inv s)
    (hAlong : Along step P s events) : Inv (exec step s events) := by
  induction events generalizing s with
  | nil => exact hInv
  | cons e events ih => exact ih (hStep s e hInv hAlong.1) hAlong.2

theorem exec_preserves (hStep : ∀ s e, Inv s → Inv (step s e)) (hInv : Inv s) (events : List ε) :
    Inv (exec step s events) := by
  induction events generalizing s with
  | nil => exact hInv
  | cons e events ih => exact ih (hStep s e hInv)

/- Conditions that agree under an invariant. -/
theorem along_congr (hInv : ∀ s e, Inv s → Inv (step s e)) (hIff : ∀ s e, Inv s → (P s e ↔ Q s e))
    (hStart : Inv s) (events : List ε) : Along step P s events ↔ Along step Q s events := by
  induction events generalizing s with
  | nil => exact Iff.rfl
  | cons e events ih => exact and_congr (hIff s e hStart) (ih (hInv s e hStart))

/-
  A property that holds after a step exactly when the step meets a condition holds after every step
  of a run exactly when every step meets the condition.
-/
theorem along_step_iff {Q : σ → Prop} (hInv : ∀ s e, Inv s → Inv (step s e))
    (hStep : ∀ s e, Inv s → Q s → (Q (step s e) ↔ P s e)) (hStart : Inv s) (hQ : Q s)
    (events : List ε) : Along step (fun s e => Q (step s e)) s events ↔ Along step P s events := by
  induction events generalizing s with
  | nil => exact Iff.rfl
  | cons e events ih =>
    constructor
    · intro hAlong
      refine ⟨(hStep s e hStart hQ).mp hAlong.1, ?_⟩
      exact (ih (hInv s e hStart) hAlong.1).mp hAlong.2
    · intro hAlong
      have hNext := (hStep s e hStart hQ).mpr hAlong.1
      refine ⟨hNext, ?_⟩
      exact (ih (hInv s e hStart) hNext).mpr hAlong.2

end Invariants

----
-- Reaching A Goal
----

/-
  A machine with an allowed event that makes a measure smaller, as long as the goal is not reached,
  reaches it.
-/
theorem exists_exec_of_measure {Inv Goal : σ → Prop} {Allowed : ε → Prop} (measure : σ → Nat)
    (hNext : ∀ s, Inv s → ¬ Goal s →
      ∃ e, Allowed e ∧ Inv (step s e) ∧ measure (step s e) < measure s) (hInv : Inv s) :
    ∃ events, (∀ e ∈ events, Allowed e) ∧ Goal (exec step s events) := by
  induction hN : measure s using Nat.strongRecOn generalizing s with
  | _ n ih =>
    by_cases hGoal : Goal s
    · refine ⟨[], ?_, hGoal⟩
      intro e hMem
      exact absurd hMem List.not_mem_nil
    · rcases hNext s hInv hGoal with ⟨e, hAllowed, hKept, hLess⟩
      rcases ih _ (hN ▸ hLess) hKept rfl with ⟨events, hEvents, hReached⟩
      refine ⟨e :: events, ?_, hReached⟩
      exact List.forall_mem_cons.mpr ⟨hAllowed, hEvents⟩

----
-- Deleting Irrelevant Events
----

/- What the events of a run show, in order. -/
def observe (step : σ → ε → σ) (out : σ → ε → Option ω) : σ → List ε → List ω
  | _, [] => []
  | s, e :: events => (out s e).toList ++ observe step out (step s e) events

/-
  Events that are not `relevant` show nothing and keep the relation on their side; the others agree
  on related states. Only `allowed` events are considered.
-/
structure Unwinding (step : σ → ε → σ) (out : σ → ε → Option ω)
    (allowed : ε → Prop) (relevant : ε → Bool) (R : σ → σ → Prop) : Prop where
  silent : ∀ s e, relevant e = false → out s e = none
  local_ : ∀ s t e, allowed e → relevant e = false → R s t → R (step s e) t
  step_ : ∀ s t e, relevant e = true → R s t → R (step s e) (step t e)
  output : ∀ s t e, relevant e = true → R s t → out s e = out t e

/- The irrelevant events of a run can be deleted. -/
theorem observe_filter {out : σ → ε → Option ω} {allowed : ε → Prop} {relevant : ε → Bool}
    {R : σ → σ → Prop} (hUnwind : Unwinding step out allowed relevant R) {t : σ}
    (hAllowed : ∀ e ∈ events, allowed e) (hRel : R s t) :
    observe step out s events = observe step out t (events.filter relevant) := by
  induction events generalizing s t with
  | nil => rfl
  | cons e events ih =>
    have hHead := hAllowed e List.mem_cons_self
    have hTail : ∀ e ∈ events, allowed e := fun e he => hAllowed e (List.mem_cons_of_mem _ he)
    cases hE : relevant e with
    | false =>
      rw [List.filter_cons_of_neg (by simp [hE])]
      simp only [observe, hUnwind.silent s e hE, Option.toList_none, List.nil_append]
      exact ih hTail (hUnwind.local_ s t e hHead hE hRel)
    | true =>
      rw [List.filter_cons_of_pos hE]
      simp only [observe, hUnwind.output s t e hE hRel]
      rw [ih hTail (hUnwind.step_ s t e hE hRel)]

----
-- Histories With A Counter
----

section Counted

variable {γ : Type} {version : σ → Nat} {content : σ → γ} {at_ : Nat → σ} {clock : Nat}

/- States over time whose counter goes up whenever the content changes. -/
def Counted (version : σ → Nat) (content : σ → γ) (at_ : Nat → σ) (clock : Nat) : Prop :=
  ∀ k < clock, content (at_ (k + 1)) = content (at_ k) ∧ version (at_ (k + 1)) = version (at_ k) ∨
      version (at_ (k + 1)) = version (at_ k) + 1

/- Between two moments with one count the content is one. -/
theorem Counted.le_and_eq (hCounted : Counted version content at_ clock) {m n : Nat}
    (hLe : m ≤ n) (hClock : n ≤ clock) : version (at_ m) ≤ version (at_ n) ∧
      (version (at_ m) = version (at_ n) → content (at_ m) = content (at_ n)) := by
  induction hLe with
  | refl => exact ⟨Nat.le_refl _, fun _ => rfl⟩
  | @step n hLe ih =>
    rcases ih (by omega) with ⟨hVersion, hContent⟩
    rcases hCounted n (by omega) with ⟨hSame, hCount⟩ | hCount
    · rw [hSame, hCount]
      exact ⟨hVersion, hContent⟩
    · rw [hCount]
      exact ⟨by omega, fun hEq => by omega⟩

end Counted

end Run
