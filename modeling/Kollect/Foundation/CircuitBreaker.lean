import Mathlib.Data.Nat.Basic
import Mathlib.Logic.Function.Iterate

/-
  Circuit breakers. A program gets them from a library, which stays a parameter: `Breaker.Library`
  has its operations, and `Breaker.Documented` what its documentation says of them.

  A request is split at its two lock sections, `beforeRequest` and `afterRequest`. Time is a number
  of nanoseconds. `Breaker.counting` is a small library of this kind: closed until the trip
  condition holds, then open for a timeout.

  Key theorems include:
    * `Breaker.documented_counting`
-/

----
-- Libraries
----

namespace Breaker

/- What the requests of one generation amounted to. -/
structure Counts where
  requests : Nat
  totalExclusions : Nat
  consecutiveSuccesses : Nat
  consecutiveFailures : Nat
deriving DecidableEq

def Counts.zero : Counts := ⟨0, 0, 0, 0⟩

structure Settings where
  maxRequests : Nat
  interval : Nat
  timeout : Nat
  readyToTrip : Counts → Bool

/- How a request that ran is counted. -/
inductive Outcome where
  | success
  | failure
  | excluded
deriving DecidableEq

/- Why a request did not run. -/
inductive Refusal where
  | openState
  | tooManyRequests
deriving DecidableEq

/- The operations on breakers of type `β`. An admitted request is told its generation. -/
structure Library (β : Type) where
  new : Settings → Nat → β
  beforeRequest : Settings → β → Nat → β × Except Refusal Nat
  afterRequest : Settings → β → Nat → Nat → Outcome → β

variable {β : Type}

/- A request that starts and ends at one instant. -/
def Library.attempt (lib : Library β) (settings : Settings) (now : Nat) (outcome : Outcome)
    (b : β) : β :=
  match lib.beforeRequest settings b now with
  | (b, .error _) => b
  | (b, .ok generation) => lib.afterRequest settings b generation now outcome

/- Whether a request at an instant is admitted after some others of that instant. -/
def Library.admitsAfter (lib : Library β) (settings : Settings) (now : Nat) (outcome : Outcome)
    (n : Nat) : Bool :=
  (lib.beforeRequest settings ((lib.attempt settings now outcome)^[n] (lib.new settings now))
    now).2.isOk

/-
  What is documented of a new breaker. Failures in a row open it once they meet the trip condition,
  and an open breaker refuses. Successes leave it closed, and a closed breaker admits.
-/
structure Documented (lib : Library β) : Prop where
  failures_open : ∀ settings now n, 0 < n →
    (∀ counts : Counts, counts.consecutiveFailures = n → settings.readyToTrip counts = true) →
      lib.admitsAfter settings now .failure n = false
  successes_admit : ∀ settings now n, lib.admitsAfter settings now .success n = true

----
-- A Breaker That Counts
----

end Breaker

structure Breaker where
  counts : Breaker.Counts
  openUntil : Option Nat
deriving DecidableEq

namespace Breaker

/- Refuse until the timeout has passed. There is one generation. -/
def beforeRequest (_ : Settings) (b : Breaker) (now : Nat) : Breaker × Except Refusal Nat :=
  match b.openUntil with
  | none => (b, .ok 0)
  | some t =>
    if now ≤ t then (b, .error .openState)
    else (⟨Counts.zero, none⟩, .ok 0)

def afterRequest (settings : Settings) (b : Breaker) (_ now : Nat) (outcome : Outcome) : Breaker :=
  match outcome with
  | .excluded => b
  | .success => { b with counts := { b.counts with consecutiveFailures := 0 } }
  | .failure =>
    let counts := { b.counts with consecutiveFailures := b.counts.consecutiveFailures + 1 }
    if settings.readyToTrip counts then ⟨Counts.zero, some (now + settings.timeout)⟩
    else { b with counts := counts }

def counting : Library Breaker := ⟨fun _ _ => ⟨Counts.zero, none⟩, beforeRequest, afterRequest⟩

/- The breaker is open, or has counted the failures so far and not met the trip condition. -/
def Counted (settings : Settings) (now n : Nat) (b : Breaker) : Prop :=
  b.openUntil = some (now + settings.timeout) ∨
    b.openUntil = none ∧ b.counts.consecutiveFailures = n ∧
      (0 < n → settings.readyToTrip b.counts = false)

theorem counted_failure {settings : Settings} {now n : Nat} {b : Breaker}
    (hCounted : Counted settings now n b) :
    Counted settings now (n + 1) (counting.attempt settings now .failure b) := by
  rcases hCounted with hOpen | ⟨hClosed, hCount, -⟩
  · left
    simp [Library.attempt, counting, beforeRequest, hOpen]
  · simp only [Library.attempt, counting, beforeRequest, afterRequest, hClosed]
    split_ifs with hTrip
    · exact .inl rfl
    · exact .inr ⟨rfl, congrArg (· + 1) hCount, fun _ => by simpa using hTrip⟩

theorem documented_counting : Documented counting where
  failures_open settings now n hPos hTrip := by
    have hRun : ∀ m, Counted settings now m
        ((counting.attempt settings now .failure)^[m] (counting.new settings now)) := by
      intro m
      induction m with
      | zero => exact .inr ⟨rfl, rfl, fun hZero => absurd hZero (lt_irrefl 0)⟩
      | succ m ih =>
        rw [Function.iterate_succ_apply']
        exact counted_failure ih
    rcases hRun n with hOpen | ⟨-, hCount, hNot⟩
    · unfold Library.admitsAfter
      simp only [counting, beforeRequest] at hOpen ⊢
      simp [hOpen]
      rfl
    · rw [hTrip _ hCount] at hNot
      exact absurd (hNot hPos) (by decide)
  successes_admit settings now n := by
    have hClosed : ((counting.attempt settings now .success)^[n]
        (counting.new settings now)).openUntil = none := by
      induction n with
      | zero => rfl
      | succ n ih =>
        rw [Function.iterate_succ_apply']
        simp only [Library.attempt, counting, beforeRequest] at ih ⊢
        rw [ih]
        exact ih
    unfold Library.admitsAfter
    simp only [counting, beforeRequest] at hClosed ⊢
    rw [hClosed]
    rfl

end Breaker
