import Kollect.Foundation.Run
import Mathlib.Data.Nat.Init
import Mathlib.Order.Nat

/-
  Infinite runs and what fairness makes happen in them.

  A `Fair.Behavior` is an infinite sequence of states, each obtained from the one before by a
  labelled step. A label that is disabled in a state may still occur: its step then changes nothing.

  Progress is derived by two rules: a state of affairs that lasts until it is left leads to what a
  fair label makes of it, when the label stays enabled (weak fairness) or is enabled again and again
  (strong fairness).

  Key results include:
    * `Fair.invariant`
    * `Fair.leadsTo_of_weak`
    * `Fair.leadsTo_of_strong`
    * `Fair.weak_of_halted` and `Fair.strong_of_halted`
-/

namespace Fair

variable {σ ℓ : Type}

----
-- Behaviors
----

/- An infinite sequence of steps. -/
structure Behavior (step : σ → ℓ → σ) where
  state : Nat → σ
  label : Nat → ℓ
  next : ∀ n, state (n + 1) = step (state n) (label n)

/- Continuously enabled from some moment on, the label occurs. -/
def Weak {step : σ → ℓ → σ} (enabled : σ → ℓ → Prop) (b : Behavior step) (a : ℓ) : Prop :=
  ∀ n, (∀ m ≥ n, enabled (b.state m) a) → ∃ m ≥ n, b.label m = a

/- Enabled again and again, the label occurs while it is. -/
def Strong {step : σ → ℓ → σ} (enabled : σ → ℓ → Prop) (b : Behavior step) (a : ℓ) : Prop :=
  ∀ n, (∀ k ≥ n, ∃ m ≥ k, enabled (b.state m) a) → ∃ m ≥ n, enabled (b.state m) a ∧ b.label m = a

/- Whenever `P` holds, `Q` holds then or later. -/
def LeadsTo {step : σ → ℓ → σ} (b : Behavior step) (P Q : σ → Prop) : Prop :=
  ∀ n, P (b.state n) → ∃ m ≥ n, Q (b.state m)

section Rules

variable {step : σ → ℓ → σ} {enabled : σ → ℓ → Prop} {b : Behavior step} {a : ℓ} {P Q R : σ → Prop}

theorem persists (hStep : ∀ n, P (b.state n) → P (b.state (n + 1)))
    {n m : Nat} (hLe : n ≤ m) (hP : P (b.state n)) : P (b.state m) := by
  induction hLe with
  | refl => exact hP
  | step _ ih => exact hStep _ ih

theorem invariant (hStart : P (b.state 0)) (hStep : ∀ s a, P s → P (step s a)) (n : Nat) :
    P (b.state n) := by
  refine persists (fun n hP => ?_) (Nat.zero_le n) hStart
  rw [b.next]
  exact hStep _ _ hP

theorem LeadsTo.trans (hPQ : LeadsTo b P Q) (hQR : LeadsTo b Q R) : LeadsTo b P R := by
  intro n hP
  rcases hPQ n hP with ⟨m, hM, hQ⟩
  rcases hQR m hQ with ⟨k, hK, hR⟩
  exact ⟨k, le_trans hM hK, hR⟩

variable (hStay : ∀ s a, P s → P (step s a) ∨ Q (step s a))

include hStay

/- What lasts until `Q` either reaches `Q` or lasts forever. -/
theorem forever_of_not_reached {n : Nat} (hP : P (b.state n)) (hNever : ∀ m ≥ n, ¬ Q (b.state m)) :
    ∀ m ≥ n, P (b.state m) := by
  intro m hLe
  induction hLe with
  | refl => exact hP
  | @step m hLe ih =>
    have hNext := hStay _ (b.label m) ih
    rw [← b.next] at hNext
    exact hNext.resolve_right (hNever _ (Nat.le_succ_of_le hLe))

/- It is enough that `P` without `Q` cannot last. -/
theorem leadsTo_of_not_forever
    (hEnds : ∀ n, (∀ m ≥ n, P (b.state m)) → ¬ ∀ m ≥ n, ¬ Q (b.state m)) : LeadsTo b P Q := by
  intro n hP
  by_contra hNot
  have hNever : ∀ m ≥ n, ¬ Q (b.state m) := fun m hM hQ => hNot ⟨m, hM, hQ⟩
  exact hEnds n (forever_of_not_reached hStay hP hNever) hNever

/- A label that stays enabled is weakly fair's to take. -/
theorem leadsTo_of_weak (hFair : Weak enabled b a)
    (hEnabled : ∀ n, P (b.state n) → enabled (b.state n) a)
    (hAct : ∀ n, P (b.state n) → b.label n = a → Q (b.state (n + 1))) : LeadsTo b P Q := by
  refine leadsTo_of_not_forever hStay fun n hForever hNever => ?_
  rcases hFair n (fun m hM => hEnabled m (hForever m hM)) with ⟨m, hM, hLabel⟩
  exact hNever (m + 1) (Nat.le_succ_of_le hM) (hAct m (hForever m hM) hLabel)

/- A label enabled again and again is strongly fair's. -/
theorem leadsTo_of_strong (hFair : Strong enabled b a)
    (hOften : ∀ n, P (b.state n) → ∃ m ≥ n, Q (b.state m) ∨ enabled (b.state m) a)
    (hAct : ∀ n, P (b.state n) → enabled (b.state n) a → b.label n = a → Q (b.state (n + 1))) :
    LeadsTo b P Q := by
  refine leadsTo_of_not_forever hStay fun n hForever hNever => ?_
  have hEnabled : ∀ k ≥ n, ∃ m ≥ k, enabled (b.state m) a := by
    intro k hK
    rcases hOften k (hForever k hK) with ⟨m, hM, hQ | hOn⟩
    · exact absurd hQ (hNever m (le_trans hK hM))
    · exact ⟨m, hM, hOn⟩
  rcases hFair n hEnabled with ⟨m, hM, hOn, hLabel⟩
  exact hNever (m + 1) (Nat.le_succ_of_le hM) (hAct m (hForever m hM) hOn hLabel)

end Rules

----
-- Behaviors That Halt
----

/- The labels in order, then `rest` forever. -/
def ofList (step : σ → ℓ → σ) (s : σ) (labels : List ℓ) (rest : ℓ) : Behavior step where
  state n := Run.exec step s ((List.range n).map (fun i => labels.getD i rest))
  label n := labels.getD n rest
  next n := by
    rw [List.range_succ, List.map_append, Run.exec_append]
    rfl

section Halted

variable {step : σ → ℓ → σ} {enabled : σ → ℓ → Prop}

theorem ofList_state_of_le {s : σ} {labels : List ℓ} {rest : ℓ}
    (hRest : ∀ s, step s rest = s) {n : Nat} (hLe : labels.length ≤ n) :
    (ofList step s labels rest).state n = Run.exec step s labels := by
  induction n, hLe using Nat.le_induction with
  | base =>
    have hMap : (List.range labels.length).map (fun i => labels.getD i rest) = labels := by
      apply List.ext_getElem
      · simp
      · intro i h₁ h₂
        simp [h₂]
    change Run.exec step s _ = _
    rw [hMap]
  | succ n hLe ih =>
    rw [Behavior.next, ih]
    have hLabel : (ofList step s labels rest).label n = rest := by
      change labels.getD n rest = rest
      rw [List.getD_eq_getElem?_getD, List.getElem?_eq_none hLe, Option.getD_none]
    rw [hLabel, hRest]

/- A label that is disabled for good is weakly fair. -/
theorem weak_of_halted {b : Behavior step} {a : ℓ} {N : Nat}
    (hOff : ∀ m ≥ N, ¬ enabled (b.state m) a) : Weak enabled b a := by
  intro n hOn
  exact absurd (hOn (max n N) (le_max_left n N)) (hOff (max n N) (le_max_right n N))

/- A label that is disabled for good is strongly fair. -/
theorem strong_of_halted {b : Behavior step} {a : ℓ} {N : Nat}
    (hOff : ∀ m ≥ N, ¬ enabled (b.state m) a) : Strong enabled b a := by
  intro n hOn
  rcases hOn (max n N) (le_max_left n N) with ⟨m, hM, hEnabled⟩
  exact absurd hEnabled (hOff m (le_trans (le_max_right n N) hM))

end Halted

end Fair
