import Kollect.Sink.Cleanup

/-
  The cleanup of all sinks of a deleted inventory (`controller/sink_cleanup.go`,
  `controller/inventory_finalizer.go`).

  The errors of the sinks are joined in the order of the bindings, and the class of the joined error
  decides whether the deletion is retried.

  Key theorems include:
    * `steadyClass_iff`
-/

namespace Kollect
namespace Controller

open Errors
open Sink

----
-- The Pass Over The Bindings
----

structure SinkCleanupReport where
  sinkGone : List Text
  retained : List Text
  retainedByPolicy : List Text
  sharedIdentity : List Text

namespace SinkCleanupReport

def announcement (key objectPath : Text) : Text :=
  key ++ " (inventory export identity " ++ objectPath ++ ")"

def add (r : SinkCleanupReport) (outcome : CleanupExportOutcome)
    (key objectPath : Text) : SinkCleanupReport :=
  match outcome with
  | .retained => { r with retained := r.retained ++ [announcement key objectPath] }
  | .retainedByPolicy => { r with retainedByPolicy := r.retainedByPolicy ++ [key] }
  | .retainedSharedIdentity =>
    { r with sharedIdentity := r.sharedIdentity ++ [announcement key objectPath] }
  | .cleaned | .pruned => r

end SinkCleanupReport

/-
  A binding as the pass sees it: its sink, of which only `RetractsOnDeletion` matters here, and its
  cleanup, which takes whether the identity is shared.
-/
structure CleanupBinding where
  key : Text
  load : Except GoError Bool
  cleanup : Bool → Except GoError CleanupExportOutcome

/- `known` is what the one successful lookup has found. -/
structure CleanupPass where
  report : SinkCleanupReport
  errs : List GoError
  known : Option Bool
  lookups : Nat

/- A lookup that failed is made again for the next sink. -/
def CleanupPass.sharedIdentity (lookup : Option (Nat → Except GoError Bool))
    (s : CleanupPass) : Except GoError Bool × CleanupPass :=
  match lookup, s.known with
  | none, _ => (.ok false, s)
  | some _, some shared => (.ok shared, s)
  | some ask, none =>
    match ask s.lookups with
    | .ok shared => (.ok shared, { s with known := some shared, lookups := s.lookups + 1 })
    | .error err => (.error err, { s with lookups := s.lookups + 1 })

def CleanupPass.fail (s : CleanupPass) (err : GoError) : CleanupPass :=
  { s with errs := s.errs ++ [err] }

/- A sink that is gone is announced and is no error. -/
def cleanupBinding (lookup : Option (Nat → Except GoError Bool))
    (objectPath : Text) (s : CleanupPass) (binding : CleanupBinding) : CleanupPass :=
  match binding.load with
  | .error err =>
    if statusReason? err = some .notFound then
      { s with report := { s.report with sinkGone := s.report.sinkGone ++ [binding.key] } }
    else s.fail err
  | .ok retracts =>
    let (shared, s) :=
      if retracts then s.sharedIdentity lookup
      else (.ok false, s)
    match shared with
    | .error err => s.fail err
    | .ok shared =>
      match binding.cleanup shared with
      | .error err => s.fail err
      | .ok outcome => { s with report := s.report.add outcome binding.key objectPath }

def emptyReport : SinkCleanupReport := ⟨[], [], [], []⟩

/- Without a registry of backends nothing is cleaned. -/
def cleanupSinkExports (hasRegistry : Bool) (lookup : Option (Nat → Except GoError Bool))
    (objectPath : Text) (bindings : List CleanupBinding) : SinkCleanupReport × Option GoError :=
  if hasRegistry = false ∨ bindings = [] then (emptyReport, none)
  else
    let pass := bindings.foldl (cleanupBinding lookup objectPath) ⟨emptyReport, [], none, 0⟩
    (pass.report, join pass.errs)

/-
  How the deletion goes on: the finalizer is removed, the inventory waits at a fixed cadence for an
  operator, or the error is returned and the deletion is retried.
-/
inductive Finalization where
  | removed
  | wedged
  | retried
deriving DecidableEq, Repr

def finalizeInventoryDeletion (forceCleanup : Bool) (err : Option GoError) : Finalization :=
  if forceCleanup then .removed
  else
    match err with
    | none => .removed
    | some err => if isTerminal err then .wedged else .retried

----
-- The Class Of The Joined Error
----

/-
  The class does not depend on the order of the sinks, and one error that can be retried keeps the
  deletion retrying.
-/
structure SteadyClass (errs : List GoError) : Prop where
  order :
    ∀ errs' : List GoError, errs'.Perm errs → (join errs').map classOf = (join errs).map classOf
  terminal : (join errs).map classOf = some .terminal → ∀ err ∈ errs, classOf err = .terminal
  retried :
    (∃ err ∈ errs, classOf err ≠ .terminal) → finalizeInventoryDeletion false (join errs) = .retried

/- What a search looks for in these errors. -/
def finder (errs : List GoError) : GoError → Option ErrorClass :=
  if errs.filterMap classError? = [] then statusClass?
  else classError?

theorem meetable_of_perm {errs errs' : List GoError} (hPerm : errs'.Perm errs) :
    meetable errs' = errs'.filterMap (finder errs) := by
  have hClasses := hPerm.filterMap classError?
  unfold meetable finder
  by_cases hNone : errs.filterMap classError? = []
  · rw [if_pos hNone, if_pos (List.perm_nil.mp (hNone ▸ hClasses))]
  · have hSome : errs'.filterMap classError? ≠ [] :=
      fun hNil => hNone (List.nil_perm.mp (hNil ▸ hClasses))
    rw [if_neg hNone, if_neg hSome]

theorem join_map_classOf (errs : List GoError) : (join errs).map classOf =
      if errs = [] then none
      else some ((meetable errs).head?.getD .transient) := by
  unfold join
  split_ifs
  · rfl
  · rw [Option.map_some, classOf_join]

theorem head?_eq_of_getD {xs ys : List ErrorClass} {default : ErrorClass} (hPerm : ys.Perm xs)
    (hEq : ys.head?.getD default = xs.head?.getD default) : ys.head? = xs.head? := by
  cases ys with
  | nil => rw [List.nil_perm.mp hPerm]
  | cons y ys =>
    cases xs with
    | nil => cases List.perm_nil.mp hPerm
    | cons x xs =>
      rw [List.head?_cons, List.head?_cons] at hEq ⊢
      exact congrArg some hEq

theorem order_iff (errs : List GoError) :
    (∀ errs' : List GoError, errs'.Perm errs → (join errs').map classOf = (join errs).map classOf) ↔
      ∀ c ∈ meetable errs, ∀ c' ∈ meetable errs, c = c' := by
  have hOwn := meetable_of_perm (List.Perm.refl errs)
  rw [hOwn, ← ErrorTree.head?_filterMap_of_perm_iff]
  refine forall₂_congr fun errs' hPerm => ?_
  have hNil : errs' = [] ↔ errs = [] := by
    rw [← List.length_eq_zero_iff, hPerm.length_eq, List.length_eq_zero_iff]
  rw [join_map_classOf, join_map_classOf, meetable_of_perm hPerm, hOwn]
  by_cases hEmpty : errs = []
  · rw [if_pos hEmpty, if_pos (hNil.mpr hEmpty), hEmpty, hNil.mpr hEmpty]
    simp
  · rw [if_neg hEmpty, if_neg (mt hNil.mp hEmpty), Option.some.injEq]
    refine ⟨head?_eq_of_getD (hPerm.filterMap _), ?_⟩
    intro hHead
    rw [hHead]

/- If all classes are one, the joined error has that one. -/
theorem terminal_mem_meetable_iff {errs : List GoError}
    (hOne : ∀ c ∈ meetable errs, ∀ c' ∈ meetable errs, c = c') :
    (join errs).map classOf = some .terminal ↔ .terminal ∈ meetable errs := by
  rw [join_map_classOf]
  by_cases hEmpty : errs = []
  · rw [if_pos hEmpty, hEmpty]
    exact iff_of_false (Option.some_ne_none _).symm List.not_mem_nil
  · rw [if_neg hEmpty, Option.some.injEq]
    cases hMeet : meetable errs with
    | nil => exact iff_of_false (by decide) List.not_mem_nil
    | cons c cs =>
      rw [hMeet] at hOne
      refine ⟨fun hEq => ?_, fun hMem => ?_⟩
      · exact hEq ▸ List.mem_cons_self
      · exact hOne c List.mem_cons_self _ hMem

/-
  The class is steady exactly if the errors that decide it have one class, and all errors are
  terminal if that is terminal. The errors that decide are those that carry a class and, if none
  does, those with a status of the API server.
-/
theorem steadyClass_iff (errs : List GoError) :
    SteadyClass errs ↔ (∀ c ∈ meetable errs, ∀ c' ∈ meetable errs, c = c') ∧
        (.terminal ∈ meetable errs → ∀ err ∈ errs, classOf err = .terminal) := by
  constructor
  · rintro ⟨hOrder, hTerminal, -⟩
    have hOne := (order_iff errs).mp hOrder
    refine ⟨hOne, fun hMem => hTerminal ?_⟩
    exact (terminal_mem_meetable_iff hOne).mpr hMem
  · rintro ⟨hOne, hAll⟩
    have hTerminal : (join errs).map classOf = some .terminal →
        ∀ err ∈ errs, classOf err = .terminal :=
      fun hEq => hAll ((terminal_mem_meetable_iff hOne).mp hEq)
    refine ⟨(order_iff errs).mpr hOne, hTerminal, ?_⟩
    rintro ⟨err, hErr, hOther⟩
    have hSome : join errs = some (.join errs) := if_neg (List.ne_nil_of_mem hErr)
    have hNot : ¬ isTerminal (.join errs) = true := by
      intro hJoined
      refine hOther (hTerminal ?_ err hErr)
      rw [hSome, Option.map_some, of_decide_eq_true hJoined]
    rw [hSome]
    exact if_neg hNot

/- A sink that fails with an error. -/
def failingSink (key : Text) (err : GoError) : CleanupBinding where
  key := key
  load := .ok false
  cleanup _ := .error err

def badPathSink : CleanupBinding := failingSink "snapshot/a" (terminal (errorf "bad path"))

def slowSink : CleanupBinding := failingSink "snapshot/b" (transient (errorf "timeout"))

/-
  One sink fails for good and one may succeed later. The deletion waits for an operator if the first
  is bound before the second, and retries otherwise.
-/
theorem first_bound_sink_decides :
    let path : Text := "inventory/a/b.json"
    let first := (cleanupSinkExports true none path [badPathSink, slowSink]).2
    let second := (cleanupSinkExports true none path [slowSink, badPathSink]).2
    first.map classOf = some .terminal ∧ second.map classOf = some .transient ∧
      finalizeInventoryDeletion false first = .wedged ∧
      finalizeInventoryDeletion false second = .retried := by
  decide

end Controller
end Kollect
