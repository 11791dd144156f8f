import Kollect.Collect.Dispatch
import Kollect.Collect.Registry

/-
  Dispatches in flight while targets are registered and unregistered.

  A worker copies the target states when it takes an event and decides, extracts and writes later,
  under a lock for the write only (`processDispatch` and `upsertIfRegistered` of
  `internal/collect/engine.go`). Extraction reads the copied state and the object, so the
  interleaving points are those of `Dispatcher.step`.

  Key theorems include:
    * `writesCurrent_of_noReplacement`
-/

namespace Kollect
namespace Collect

----
-- Dispatches And The Registry
----

/-
  `computedFrom` is the state from which a worker computed the sections it has still to run; no step
  reads it.
-/
structure InFlight (n : Nat) where
  dispatcher : Dispatcher n
  computedFrom : Fin n → Option TargetState

/- An unregistration is two steps: the registration goes, and then the rows. -/
inductive InFlightLabel (n : Nat) where
  | dispatch (label : DispatchLabel n)
  | register (call : RegisterCall)
  | unregister (namespace_ name : Text)
  | removeRows (namespace_ name : Text)

namespace InFlight

variable {n : Nat}

def engine (s : InFlight n) : Engine := s.dispatcher.engine

def setEngine (s : InFlight n) (e : Engine) : InFlight n :=
  { s with dispatcher := { s.dispatcher with engine := e } }

def start (n : Nat) (e : Engine) : InFlight n where
  dispatcher := Dispatcher.start n e
  computedFrom _ := none

/- The origin of the workers' sections, once `w` goes on. -/
def originAfter (s : InFlight n) (w w' : Fin n) : Option TargetState :=
  match s.dispatcher.workers w with
  | .running _ _ (st :: _) [] => if w' = w then some st else s.computedFrom w'
  | _ => s.computedFrom w'

def step (lib : Libraries) (pipe : Pipeline) (gvr : GroupVersionResource)
    (s : InFlight n) : InFlightLabel n → InFlight n
  | .dispatch (.enqueue job) =>
    { s with dispatcher := s.dispatcher.step lib pipe gvr (.enqueue job) }
  | .dispatch (.work w) => ⟨s.dispatcher.step lib pipe gvr (.work w), s.originAfter w⟩
  | .register call => s.setEngine (call.outcome lib s.engine).engine
  | .unregister namespace_ name =>
    s.setEngine (unregisterLocked lib s.engine (targetKey namespace_ name))
  | .removeRows namespace_ name =>
    s.setEngine { s.engine with store := s.engine.store.removeTarget namespace_ name }

/- The worker has still to write from its copy of the state. -/
def Holds (s : InFlight n) (w : Fin n) (st : TargetState) : Prop :=
  ∃ u job states pending, s.dispatcher.workers w = .running u job states pending ∧ (st ∈ states ∨
        s.computedFrom w = some st ∧ ∃ key item, Effect.upsertIfRegistered key item ∈ pending)

end InFlight

----
-- Current Writes
----

section Properties

variable {n : Nat}

/- A row that a worker writes now was computed from the state that is registered now. -/
def WritesCurrent (pipe : Pipeline) (s : InFlight n) : InFlightLabel n → Prop
  | .dispatch (.work w) =>
    ∀ u job states key item pending st, s.dispatcher.workers w =
          .running u job states (.upsertIfRegistered key item :: pending) →
        s.engine.targets.lookup key = some st → s.computedFrom w = some st ∧ ∃ attrs,
              pipe.extract u st.profile.spec.attributes = .ok attrs ∧ item = newItem pipe st u attrs
  | _ => True

/- No call registers another state under the key of a state that a worker holds. -/
def NoReplacement (lib : Libraries) (s : InFlight n) : InFlightLabel n → Prop
  | .register call =>
    ∀ w st, s.Holds w st → keyOf st.target = call.key →
      call.registeredState lib s.engine = none ∨ call.registeredState lib s.engine = some st
  | _ => True

/- What holds of the states and rows the workers hold. -/
structure HeldStates (pipe : Pipeline) (s : InFlight n) : Prop where
  keyed : Keyed s.engine
  current :
    ∀ w st, s.Holds w st → s.engine.targets.lookup (keyOf st.target) = none ∨
        s.engine.targets.lookup (keyOf st.target) = some st
  computed :
    ∀ w u job states pending key item, s.dispatcher.workers w = .running u job states pending →
        Effect.upsertIfRegistered key item ∈ pending → ∃ st attrs, s.computedFrom w = some st ∧
              key = keyOf st.target ∧ pipe.extract u st.profile.spec.attributes = .ok attrs ∧
              item = newItem pipe st u attrs

end Properties

----
-- What A Worker's Step Does
----

section Steps

variable {n : Nat} {lib : Libraries} {pipe : Pipeline} {gvr : GroupVersionResource}

/-
  A step of a worker leaves the registry and the other workers alone, and itself goes idle, takes an
  event, runs a section or turns to the next state.
-/
theorem work_cases (s : Dispatcher n) (w : Fin n) :
    SameRegistry (s.step lib pipe gvr (.work w)).engine s.engine ∧
      (∀ w', w' ≠ w → (s.step lib pipe gvr (.work w)).workers w' = s.workers w') ∧
      ((s.step lib pipe gvr (.work w)).workers w = .idle ∨ (∃ u job, s.workers w = .idle ∧
            (s.step lib pipe gvr (.work w)).workers w = .running u job (snapshot s.engine gvr) []) ∨
        (∃ u job states eff pending, s.workers w = .running u job states (eff :: pending) ∧
            (s.step lib pipe gvr (.work w)).workers w = .running u job states pending) ∨
        ∃ u job st states, s.workers w = .running u job (st :: states) [] ∧
            (s.step lib pipe gvr (.work w)).workers w =
              .running u job states (processState lib pipe s.engine gvr u job st)) := by
  have hRefl := SameRegistry.refl s.engine
  cases hWorker : s.workers w with
  | idle =>
    cases hQueue : s.queue with
    | nil =>
      simp only [Dispatcher.step, hWorker, hQueue]
      exact ⟨hRefl, fun _ _ => trivial, Or.inl trivial⟩
    | cons job rest =>
      cases hObj : job.obj with
      | none =>
        simp only [Dispatcher.step, hWorker, hQueue, hObj]
        exact ⟨hRefl, fun _ _ => trivial, Or.inl trivial⟩
      | some u =>
        simp only [Dispatcher.step, hWorker, hQueue, hObj]
        refine ⟨hRefl, ?_, ?_⟩
        · intro w' hNe
          exact Dispatcher.setWorker_of_ne _ hNe _
        · exact Or.inr (Or.inl ⟨u, job, trivial, Dispatcher.setWorker_self _ _ _⟩)
  | running u job states pending =>
    cases pending with
    | cons eff pending =>
      simp only [Dispatcher.step, hWorker]
      refine ⟨sameRegistry_apply hRefl eff, ?_, ?_⟩
      · intro w' hNe
        exact Dispatcher.setWorker_of_ne _ hNe _
      · exact Or.inr (Or.inr (Or.inl ⟨u, job, states, eff,
          pending, rfl, Dispatcher.setWorker_self _ _ _⟩))
    | nil =>
      cases states with
      | nil =>
        simp only [Dispatcher.step, hWorker]
        refine ⟨hRefl, ?_, ?_⟩
        · intro w' hNe
          exact Dispatcher.setWorker_of_ne _ hNe _
        · exact Or.inl (Dispatcher.setWorker_self _ _ _)
      | cons st states =>
        simp only [Dispatcher.step, hWorker]
        refine ⟨hRefl, ?_, ?_⟩
        · intro w' hNe
          exact Dispatcher.setWorker_of_ne _ hNe _
        · exact Or.inr (Or.inr (Or.inr ⟨u, job, st, states, rfl, Dispatcher.setWorker_self _ _ _⟩))

variable {s : InFlight n}

variable {w' : Fin n}

theorem originAfter_of_ne {w : Fin n} (hNe : w' ≠ w) : s.originAfter w w' = s.computedFrom w' := by
  unfold InFlight.originAfter
  split
  · exact if_neg hNe
  · rfl

variable {pending : List Effect}

theorem originAfter_section {w : Fin n} {u : Unstructured} {job : DispatchJob}
    {states : List TargetState} {eff : Effect}
    (hWorker : s.dispatcher.workers w = .running u job states (eff :: pending)) :
    s.originAfter w w = s.computedFrom w := by
  unfold InFlight.originAfter
  rw [hWorker]
  cases states <;> rfl

theorem originAfter_next {w : Fin n} {u : Unstructured} {job : DispatchJob}
    {st : TargetState} {states : List TargetState}
    (hWorker : s.dispatcher.workers w = .running u job (st :: states) []) :
    s.originAfter w w = some st := by
  unfold InFlight.originAfter
  rw [hWorker]
  exact if_pos rfl

theorem running_work_cases {w : Fin n} {u : Unstructured} {job : DispatchJob}
    {states : List TargetState}
    (hAfter : (s.dispatcher.step lib pipe gvr (.work w)).workers w' =
      .running u job states pending) :
    (w' ≠ w ∧ s.dispatcher.workers w' = .running u job states pending) ∨
      w' = w ∧ (states = snapshot s.engine gvr ∧ pending = [] ∨
        (∃ eff, s.dispatcher.workers w = .running u job states (eff :: pending)) ∨
        ∃ st, s.dispatcher.workers w = .running u job (st :: states) [] ∧
          pending = processState lib pipe s.engine gvr u job st) := by
  rcases work_cases s.dispatcher w with ⟨-, hOthers, hSelf⟩
  by_cases hW : w' = w
  · refine .inr ⟨hW, ?_⟩
    subst hW
    rcases hSelf with hIdle | ⟨u', job', -, hTake⟩ |
      ⟨u', job', states', eff, pending', hBefore, hSection⟩ |
      ⟨u', job', st', states', hBefore, hNext⟩
    · rw [hIdle] at hAfter
      cases hAfter
    · rw [hTake] at hAfter
      cases hAfter
      exact .inl ⟨rfl, rfl⟩
    · rw [hSection] at hAfter
      cases hAfter
      exact .inr (.inl ⟨eff, hBefore⟩)
    · rw [hNext] at hAfter
      cases hAfter
      exact .inr (.inr ⟨st', hBefore, rfl⟩)
  · rw [hOthers w' hW] at hAfter
    exact .inl ⟨hW, hAfter⟩

theorem holds_work {w : Fin n} {st : TargetState}
    (hHolds : (s.step lib pipe gvr (.dispatch (.work w))).Holds w' st) :
    s.Holds w' st ∨ st ∈ snapshot s.engine gvr := by
  rcases hHolds with ⟨u, job, states, pending, hAfter, hHeld⟩
  change _ ∨ s.originAfter w w' = _ ∧ _ at hHeld
  rcases running_work_cases hAfter with
    ⟨hW, hBefore⟩ | ⟨rfl, ⟨rfl, rfl⟩ | ⟨eff, hBefore⟩ | ⟨st', hBefore, rfl⟩⟩
  · rw [originAfter_of_ne hW] at hHeld
    exact Or.inl ⟨u, job, states, pending, hBefore, hHeld⟩
  · rcases hHeld with hMem | ⟨-, key, item, hMem⟩
    · exact Or.inr hMem
    · cases hMem
  · rw [originAfter_section hBefore] at hHeld
    left
    refine ⟨u, job, states, eff :: pending, hBefore, ?_⟩
    rcases hHeld with hMem | ⟨hFrom, key, item, hMem⟩
    · exact Or.inl hMem
    · exact Or.inr ⟨hFrom, key, item, List.mem_cons_of_mem eff hMem⟩
  · rw [originAfter_next hBefore] at hHeld
    left
    refine ⟨u, job, st' :: states, [], hBefore, Or.inl ?_⟩
    rcases hHeld with hMem | ⟨hFrom, -⟩
    · exact List.mem_cons_of_mem st' hMem
    · rw [Option.some.inj hFrom]
      exact List.mem_cons_self

theorem computed_work (hHeld : HeldStates pipe s) {w : Fin n} {u : Unstructured} {job : DispatchJob}
    {states : List TargetState} {key : Text} {item : Item}
    (hAfter : (s.dispatcher.step lib pipe gvr (.work w)).workers w' = .running u job states pending)
    (hMem : Effect.upsertIfRegistered key item ∈ pending) :
    ∃ st attrs, s.originAfter w w' = some st ∧ key = keyOf st.target ∧
        pipe.extract u st.profile.spec.attributes = .ok attrs ∧ item = newItem pipe st u attrs := by
  rcases running_work_cases hAfter with
    ⟨hW, hBefore⟩ | ⟨rfl, ⟨rfl, rfl⟩ | ⟨eff, hBefore⟩ | ⟨st', hBefore, rfl⟩⟩
  · rw [originAfter_of_ne hW]
    exact hHeld.computed w' u job states pending key item hBefore hMem
  · cases hMem
  · rw [originAfter_section hBefore]
    exact hHeld.computed w' u job states _ key item hBefore (List.mem_cons_of_mem eff hMem)
  · rcases upsert_mem_processState hMem with ⟨hKey, hVerdict⟩
    rcases verdict_eq_collected hVerdict with ⟨-, attrs, hExtract, hItem⟩
    exact ⟨st', attrs, originAfter_next hBefore, hKey, hExtract, hItem⟩

theorem heldStates_work (hHeld : HeldStates pipe s) (w : Fin n) :
    HeldStates pipe (s.step lib pipe gvr (.dispatch (.work w))) := by
  have hTargets : (s.step lib pipe gvr (.dispatch (.work w))).engine.targets = s.engine.targets :=
    (work_cases s.dispatcher w).1.targets
  refine ⟨?_, ?_, ?_⟩
  · unfold Keyed
    rw [hTargets]
    exact hHeld.keyed
  · intro w' st hHolds
    rw [hTargets]
    rcases holds_work hHolds with hBefore | hSnapshot
    · exact hHeld.current w' st hBefore
    · right
      rcases List.mem_filterMap.mp hSnapshot with ⟨key, -, hLookup⟩
      rw [← hHeld.keyed key st hLookup]
      exact hLookup
  · intro w' u job states pending key item hAfter hMem
    exact computed_work hHeld hAfter hMem

theorem heldStates_setEngine (hHeld : HeldStates pipe s) {e : Engine} (hKeyed : Keyed e)
    (hCurrent : ∀ w st, s.Holds w st →
        e.targets.lookup (keyOf st.target) = none ∨ e.targets.lookup (keyOf st.target) = some st) :
    HeldStates pipe (s.setEngine e) :=
  ⟨hKeyed, hCurrent, hHeld.computed⟩

theorem heldStates_register (hHeld : HeldStates pipe s) {call : RegisterCall}
    (hNo : NoReplacement lib s (.register call)) :
    HeldStates pipe (s.step lib pipe gvr (.register call)) := by
  apply heldStates_setEngine hHeld
  · exact call.keyed_outcome lib s.engine hHeld.keyed
  · intro w st hHolds
    by_cases hKey : keyOf st.target = call.key
    · rw [hKey]
      exact hNo w st hHolds hKey
    · rw [call.lookup_outcome_of_ne lib s.engine hKey]
      exact hHeld.current w st hHolds

theorem heldStates_unregister (hHeld : HeldStates pipe s) (ns name : Text) :
    HeldStates pipe (s.step lib pipe gvr (.unregister ns name)) := by
  apply heldStates_setEngine hHeld
  · exact keyed_unregisterLocked lib hHeld.keyed _
  · intro w st hHolds
    rw [lookup_unregisterLocked]
    split_ifs
    · exact Or.inl rfl
    · exact hHeld.current w st hHolds

theorem heldStates_step (s : InFlight n) (label : InFlightLabel n) (hHeld : HeldStates pipe s)
    (hNo : NoReplacement lib s label) : HeldStates pipe (s.step lib pipe gvr label) := by
  cases label with
  | dispatch label =>
    cases label with
    | enqueue job => exact ⟨hHeld.keyed, hHeld.current, hHeld.computed⟩
    | work w => exact heldStates_work hHeld w
  | register call => exact heldStates_register hHeld hNo
  | unregister ns name => exact heldStates_unregister hHeld ns name
  | removeRows ns name => exact heldStates_setEngine hHeld hHeld.keyed hHeld.current

theorem heldStates_start {e : Engine} (hKeyed : Keyed e) :
    HeldStates pipe (InFlight.start n e) := by
  refine ⟨hKeyed, ?_, ?_⟩
  · intro w st hHolds
    rcases hHolds with ⟨u, job, states, pending, hWorker, -⟩
    cases hWorker
  · intro w u job states pending key item hWorker
    cases hWorker

theorem writesCurrent_of_heldStates
    (s : InFlight n) (label : InFlightLabel n) (hHeld : HeldStates pipe s) :
    WritesCurrent pipe s label := by
  cases label with
  | dispatch label =>
    cases label with
    | enqueue job => trivial
    | work w =>
      intro u job states key item pending st hWorker hLookup
      rcases hHeld.computed w u job states _ key item
        hWorker List.mem_cons_self with
        ⟨st', attrs, hFrom, hKey, hExtract, hItem⟩
      have hHolds : s.Holds w st' :=
        ⟨u, job, states, _, hWorker, Or.inr ⟨hFrom, key, item, List.mem_cons_self⟩⟩
      have hSame : st' = st := by
        rw [hKey] at hLookup
        rcases hHeld.current w st' hHolds with hNone | hSome
        · exact absurd (hLookup.symm.trans hNone) (Option.some_ne_none st)
        · exact Option.some.inj (hSome.symm.trans hLookup)
      rw [← hSame]
      exact ⟨hFrom, attrs, hExtract, hItem⟩
  | register | unregister | removeRows => trivial

end Steps

----
-- Runs
----

/-
  While no call replaces a state that a worker holds, every row is written under the state it was
  computed from.
-/
theorem writesCurrent_of_noReplacement {lib : Libraries} {pipe : Pipeline}
    {gvr : GroupVersionResource} {n : Nat} {e : Engine}
    (hKeyed : Keyed e) {labels : List (InFlightLabel n)}
    (hRun :
      Run.Along (InFlight.step lib pipe gvr) (NoReplacement lib) (InFlight.start n e) labels) :
    Run.Along (InFlight.step lib pipe gvr) (WritesCurrent pipe) (InFlight.start n e) labels := by
  have hInv := Run.along_invariant heldStates_step (heldStates_start hKeyed) hRun
  apply hInv.imp
  intro s label hBoth
  exact writesCurrent_of_heldStates s label hBoth.1

/- A profile of another kind for the registered target. -/
def statefulCall : RegisterCall where
  target := targetIncluding [("team-a" : Text)]
  profile := { deploymentProfile with spec := ⟨⟨"apps", "v1", "StatefulSet"⟩, []⟩ }
  opts := noOptions
  listed := none

def goOn : InFlightLabel 1 := .dispatch (.work 0)

/- The call arrives when the event has been processed. -/
def orderlyReplacement : List (InFlightLabel 1) :=
  [.dispatch (.enqueue (teamEvent false)), goOn, goOn, goOn, goOn, goOn, goOn, goOn,
    .register statefulCall]

theorem keyed_deploymentsEngine : Keyed deploymentsEngine := by
  have hFresh : Keyed (Engine.fresh twoNamespaces) := by
    intro key st hLookup
    cases hLookup
  exact RegisterCall.keyed_outcome Libraries.plain (Engine.fresh twoNamespaces)
    ⟨targetIncluding [("team-a" : Text)], deploymentProfile, noOptions, none⟩ hFresh

theorem orderly_replacement_writes_current :
    Run.Along (InFlight.step Libraries.plain Pipeline.plain deploymentsGVR)
      (NoReplacement Libraries.plain) (InFlight.start 1 deploymentsEngine) orderlyReplacement ∧
    Run.Along (InFlight.step Libraries.plain Pipeline.plain deploymentsGVR)
      (WritesCurrent Pipeline.plain) (InFlight.start 1 deploymentsEngine)
      orderlyReplacement := by
  have hRun : Run.Along
        (InFlight.step Libraries.plain Pipeline.plain deploymentsGVR)
        (NoReplacement Libraries.plain)
        (InFlight.start 1 deploymentsEngine)
        orderlyReplacement := by
    refine ⟨trivial, trivial, trivial, trivial, trivial, trivial, trivial, trivial, ?_, trivial⟩
    intro w st hHolds
    rcases hHolds with ⟨u, job, states, pending, hWorker, -⟩
    rw [Subsingleton.elim w 0] at hWorker
    cases hWorker
  exact ⟨hRun, writesCurrent_of_noReplacement keyed_deploymentsEngine hRun⟩

/- The call arrives between the decision of the worker and its write. -/
def earlyReplacement : List (InFlightLabel 1) :=
  [.dispatch (.enqueue (teamEvent false)), goOn, goOn,
    .register statefulCall, goOn, goOn, goOn, goOn]

/- The row of the old kind is written after the target was registered for another kind. -/
theorem row_of_replaced_profile_is_written :
    let run := Run.exec (InFlight.step Libraries.plain Pipeline.plain deploymentsGVR)
        (InFlight.start 1 deploymentsEngine)
    let written := run earlyReplacement
    (written.engine.targets.lookup statefulCall.key).map
        (fun st => st.profile.spec.targetGVK.kind) =
      some "StatefulSet".toList ∧
    (run (earlyReplacement.take 4)).engine.store.row? "team-a" "deployments" "uid-1" = none ∧
    (written.engine.store.row? "team-a" "deployments" "uid-1").map Item.kind =
      some "Deployment".toList ∧
    ¬ Run.Along
      (InFlight.step Libraries.plain Pipeline.plain deploymentsGVR)
      (WritesCurrent Pipeline.plain)
      (InFlight.start 1 deploymentsEngine)
      earlyReplacement := by
  refine ⟨by decide +kernel, rfl, by decide +kernel, ?_⟩
  intro hAlong
  have hWrite := hAlong.2.2.2.2.2.2.2.1
  have hFrom := (hWrite _ _ _ _ _ _ _ rfl rfl).1
  have hKind := congrArg (Option.map (fun st : TargetState => st.profile.spec.targetGVK.kind)) hFrom
  exact absurd hKind (by decide +kernel)

end Collect
end Kollect
